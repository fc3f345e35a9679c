import LastpassSshAgent.System

/-!
# What one act can change

Each part of the world has few events that touch it; every other act leaves it as
it was.
-/

namespace LastpassSshAgent

namespace World

variable {w x : World} {e : Event}

@[simp] theorem reject_gate (w : World) : w.reject.gate = w.gate := by
  unfold reject
  split <;> rfl

@[simp] theorem reject_heldLock (w : World) : w.reject.heldLock = w.heldLock := by
  unfold reject
  split <;> rfl

@[simp] theorem reject_held (w : World) : w.reject.held = none := by
  unfold reject
  split
  · assumption
  · rfl

@[simp] theorem reject_unlocks (w : World) : w.reject.epoch.unlocks = w.epoch.unlocks := by
  unfold reject
  split <;> rfl

@[simp] theorem reject_approvals (w : World) : w.reject.approvals = w.approvals := by
  unfold reject
  split <;> rfl

@[simp] theorem reject_served (w : World) : w.reject.served = w.served := by
  unfold reject
  split <;> rfl

@[simp] theorem reject_identities (w : World) : w.reject.identities = w.identities := by
  unfold reject
  split <;> rfl

@[simp] theorem reject_clock (w : World) : w.reject.clock = w.clock := by
  unfold reject
  split <;> rfl

theorem reject_locks_le (w : World) : w.epoch.locks ≤ w.reject.epoch.locks := by
  unfold reject
  split
  · exact le_rfl
  · exact Nat.le_succ _

@[simp] theorem settledEpoch_unlocks (epoch : LockEpoch) (asked : Bool) :
    (Approvals.settledEpoch epoch asked).unlocks = epoch.unlocks := by
  cases asked <;> rfl

theorem settledEpoch_locks_le (epoch : LockEpoch) (asked : Bool) :
    epoch.locks ≤ (Approvals.settledEpoch epoch asked).locks := by
  cases asked
  · exact le_rfl
  · exact Nat.le_succ _

theorem apply_gate (h : e ≠ .gateReleased) : (apply e w).gate = w.gate := by
  cases e with
  | gateReleased => exact absurd rfl h
  | rejected => exact reject_gate w
  | _ => rfl

theorem apply_heldLock (h : e ≠ .heldReleased) : (apply e w).heldLock = w.heldLock := by
  cases e with
  | heldReleased => exact absurd rfl h
  | rejected => exact reject_heldLock w
  | _ => rfl

theorem apply_unlocks (h : e ≠ .asked) : (apply e w).epoch.unlocks = w.epoch.unlocks := by
  cases e with
  | asked => exact absurd rfl h
  | rejected => exact reject_unlocks w
  | settled answer asked signed => exact settledEpoch_unlocks w.epoch asked
  | _ => rfl

theorem apply_locks_le (e : Event) (w : World) : w.epoch.locks ≤ (apply e w).epoch.locks := by
  cases e with
  | rejected => exact reject_locks_le w
  | settled answer asked signed => exact settledEpoch_locks_le w.epoch asked
  | forgotten => exact Nat.le_succ _
  | expired => exact Nat.le_succ _
  | _ => exact le_rfl

theorem apply_clock (e : Event) (w : World) : (apply e w).clock = w.clock := by
  cases e with
  | rejected => exact reject_clock w
  | _ => rfl

def TouchesHeld : Event → Prop
  | .holding _ _ => True
  | .touched => True
  | .rejected => True
  | .forgotten => True
  | .expired => True
  | _ => False

theorem apply_held (h : ¬ TouchesHeld e) : (apply e w).held = w.held := by
  cases e with
  | holding secret source => exact absurd trivial h
  | touched => exact absurd trivial h
  | rejected => exact absurd trivial h
  | forgotten => exact absurd trivial h
  | expired => exact absurd trivial h
  | _ => rfl

theorem apply_approvals (h : ∀ answer asked signed, e ≠ .settled answer asked signed) :
    (apply e w).approvals = w.approvals := by
  cases e with
  | settled answer asked signed => exact absurd rfl (h answer asked signed)
  | rejected => exact reject_approvals w
  | _ => rfl

theorem apply_served (h : ∀ store, e ≠ .replaced store) : (apply e w).served = w.served := by
  cases e with
  | replaced store => exact absurd rfl (h store)
  | rejected => exact reject_served w
  | _ => rfl

theorem apply_identities (h : ∀ item why, e ≠ .discarded item why)
    (h' : ∀ remembered encoded, e ≠ .saved remembered encoded) :
    (apply e w).identities = w.identities := by
  cases e with
  | discarded item why => exact absurd rfl (h item why)
  | saved remembered encoded => exact absurd rfl (h' remembered encoded)
  | rejected => exact reject_identities w
  | _ => rfl

variable {t : ℕ}

theorem effect_gate {a : Query.Answer .gate} (h : effect t .gate a w = some x) :
    w.gate = none ∧ x = { w with gate := some t } := by
  have h' : (if w.gate = none then some { w with gate := some t } else none) = some x := h
  split_ifs at h' with hg
  exact ⟨hg, (Option.some.inj h').symm⟩

theorem effect_held {a : Query.Answer .held} (h : effect t .held a w = some x) :
    w.heldLock = none ∧ x = { w with heldLock := some t } := by
  have h' : (if w.heldLock = none then some { w with heldLock := some t } else none) = some x := h
  split_ifs at h' with hg
  exact ⟨hg, (Option.some.inj h').symm⟩

theorem effect_call {q : Query} {a : q.Answer} (hg : q ≠ .gate) (hh : q ≠ .held)
    (h : effect t q a w = some x) : x = w := by
  cases q with
  | gate => exact absurd rfl hg
  | held => exact absurd rfl hh
  | nextProbe count =>
    have h' : (if (show ℕ from a) < count then some w else none) = some x := h
    split_ifs at h'
    exact (Option.some.inj h').symm
  | _ => exact (Option.some.inj h).symm

theorem effect_eq {q : Query} {a : q.Answer} (h : effect t q a w = some x) :
    x = { w with gate := x.gate, heldLock := x.heldLock } := by
  by_cases hg : q = .gate
  · subst hg
    obtain ⟨-, rfl⟩ := effect_gate h
    rfl
  · by_cases hh : q = .held
    · subst hh
      obtain ⟨-, rfl⟩ := effect_held h
      rfl
    · rw [effect_call hg hh h]

theorem launch_eq {task : Task} (h : launch task w = some x) :
    x = { w with refresh := x.refresh } := by
  cases task with
  | refresh =>
    have h' : (if 0 < w.refresh.queued then
        some { w with refresh := { w.refresh with queued := w.refresh.queued - 1 } } else none) =
          some x := h
    split_ifs at h'
    exact Option.some.inj h' ▸ rfl
  | _ => exact Option.some.inj h ▸ rfl

/-- What a change may do to the world as thread `t` sees it, when the change is not
its own. -/
structure Spares (t : ℕ) (w x : World) : Prop where
  gate : x.gate = some t ↔ w.gate = some t
  lock : x.heldLock = some t ↔ w.heldLock = some t
  locks : w.epoch.locks ≤ x.epoch.locks
  unlocks : w.gate = some t → x.epoch.unlocks = w.epoch.unlocks
  held : w.heldLock = some t → x.held = w.held

namespace Spares

theorem refl (t : ℕ) (w : World) : Spares t w w :=
  ⟨Iff.rfl, Iff.rfl, le_rfl, fun _ => rfl, fun _ => rfl⟩

theorem trans {y : World} (h : Spares t w x) (h' : Spares t x y) : Spares t w y where
  gate := h'.gate.trans h.gate
  lock := h'.lock.trans h.lock
  locks := h.locks.trans h'.locks
  unlocks hg := (h'.unlocks (h.gate.mpr hg)).trans (h.unlocks hg)
  held hl := (h'.held (h.lock.mpr hl)).trans (h.held hl)

theorem drift (t : ℕ) (d : Drift) (w : World) : Spares t w (World.drift d w) := by
  cases d <;> exact ⟨Iff.rfl, Iff.rfl, le_rfl, fun _ => rfl, fun _ => rfl⟩

theorem launch {task : Task} (h : World.launch task w = some x) (t : ℕ) : Spares t w x := by
  rw [launch_eq h]
  exact ⟨Iff.rfl, Iff.rfl, le_rfl, fun _ => rfl, fun _ => rfl⟩

theorem effect {u : ℕ} {q : Query} {a : q.Answer} (h : World.effect u q a w = some x)
    (hu : u ≠ t) : Spares t w x := by
  by_cases hg : q = .gate
  · subst hg
    obtain ⟨hnone, rfl⟩ := effect_gate h
    exact ⟨by simp [hnone, hu], Iff.rfl, le_rfl, fun _ => rfl, fun _ => rfl⟩
  · by_cases hh : q = .held
    · subst hh
      obtain ⟨hnone, rfl⟩ := effect_held h
      exact ⟨Iff.rfl, by simp [hnone, hu], le_rfl, fun _ => rfl, by simp [hnone]⟩
    · rw [effect_call hg hh h]
      exact refl t w

theorem apply (hg : e = .gateReleased → w.gate ≠ some t) (hl : e = .heldReleased → w.heldLock ≠ some t)
    (ha : e = .asked → w.gate ≠ some t) (hh : TouchesHeld e → w.heldLock ≠ some t) :
    Spares t w (World.apply e w) where
  gate := by
    by_cases he : e = .gateReleased
    · subst he
      simpa [World.apply] using hg rfl
    · rw [apply_gate he]
  lock := by
    by_cases he : e = .heldReleased
    · subst he
      simpa [World.apply] using hl rfl
    · rw [apply_heldLock he]
  locks := apply_locks_le e w
  unlocks hw := apply_unlocks fun he => ha he hw
  held hw := apply_held fun he => hh he hw

end Spares

end World

end LastpassSshAgent
