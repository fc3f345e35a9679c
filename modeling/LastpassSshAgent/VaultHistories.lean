import LastpassSshAgent.VaultSpecs

/-!
# What the calls leave behind

Whoever asks has the lock and holds nothing from the ask to its end, and what is held
stays as it is until somebody drops it.
-/

namespace LastpassSshAgent

open Resumption

namespace VaultCall

variable {unlock : Unlock} {t u : ℕ} {s s' : Stage vaultCalls} {act : Act vaultCalls}

def Locks : Act vaultCalls → Prop
  | .answered .held _ => True
  | .answered .masterStore _ => True
  | .answered (.prompt _) _ => True
  | .began .masterStore => True
  | .began (.prompt _) => True
  | .noted (.inl .heldReleased) => False
  | .noted (.inl _) => True
  | _ => False

/-- The acts of an ask that has not succeeded. -/
def Asks : Act vaultCalls → Prop
  | .answered .masterStore _ => True
  | .answered (.prompt _) _ => True
  | .began .masterStore => True
  | .began (.prompt _) => True
  | .noted (.inl .asked) => True
  | _ => False

theorem locks_of_asks (h : Asks act) : Locks act := by
  cases act with
  | began q => cases q <;> exact h
  | answered q a => cases q <;> first | exact h | exact trivial
  | noted e =>
    cases e with
    | inl e => cases e <;> first | exact h.elim | exact trivial
    | inr supplied => exact h.elim
  | _ => exact h

theorem standing_of_legal (hl : (rules unlock).Legal s t act s')
    (ih : ∀ {act}, s.last t = some act →
      (Locks act → s.shared.heldLock = some t) ∧ (Asks act → s.shared.held = none)) :
    (Locks act → s'.shared.heldLock = some t) ∧ (Asks act → s'.shared.held = none) := by
  cases hl with
  | started _ _ => exact ⟨False.elim, False.elim⟩
  | @began q _ hr =>
    cases q with
    | masterStore => exact ⟨fun _ => hr.1.1, fun _ => hr.1.2⟩
    | prompt request => exact ⟨fun _ => hr.1.1, fun _ => hr.1.2⟩
    | _ => exact ⟨False.elim, False.elim⟩
  | @answered q a x hbegan hx =>
    have hstill : q ≠ .held → Still t s.shared x := Still.answer hx
    have hkept : Asks (.began q) → q ≠ .held → x.heldLock = some t ∧ x.held = none := by
      intro hasks hq
      have hs := hstill hq
      have hlock := (ih hbegan).1 (locks_of_asks hasks)
      exact ⟨hs.lock.mpr hlock, (hs.held hlock).trans ((ih hbegan).2 hasks)⟩
    cases q with
    | held =>
      obtain ⟨-, rfl⟩ := World.effect_held (a := a) hx
      exact ⟨fun _ => rfl, False.elim⟩
    | masterStore => exact ⟨fun _ => (hkept trivial nofun).1, fun _ => (hkept trivial nofun).2⟩
    | prompt request => exact ⟨fun _ => (hkept trivial nofun).1, fun _ => (hkept trivial nofun).2⟩
    | _ => exact ⟨False.elim, False.elim⟩
  | @noted e _ hr =>
    cases e with
    | inr supplied => exact ⟨False.elim, False.elim⟩
    | inl e =>
      by_cases he : e = .heldReleased
      · subst he
        exact ⟨False.elim, False.elim⟩
      · refine ⟨fun _ => (World.apply_heldLock he).trans (locked_of_mayNote hr), fun ha => ?_⟩
        cases e with
        | asked => exact hr.2.1
        | _ => exact ha.elim
  | ended _ _ => exact ⟨False.elim, False.elim⟩

theorem standing (h : Lawful unlock s) (hlast : s.last t = some act) :
    (Locks act → s.shared.heldLock = some t) ∧ (Asks act → s.shared.held = none) := by
  induction h generalizing act with
  | start _ => exact absurd hlast nofun
  | @act s s' u act' _ hl ih =>
    by_cases hut : u = t
    · subst hut
      obtain rfl := Option.some.inj (hl.last_self.symm.trans hlast)
      exact standing_of_legal hl fun {act} => @ih act
    · have hs : Still t s.shared s'.shared := legal_still hl hut
      obtain ⟨hlock, hnone⟩ := ih ((hl.last_of_ne hut).symm.trans hlast)
      exact ⟨fun ha => hs.lock.mpr (hlock ha),
        fun ha => (hs.held (hlock (locks_of_asks ha))).trans (hnone ha)⟩
  | drift d _ ih =>
    obtain ⟨hlock, hnone⟩ := ih hlast
    refine ⟨fun ha => (Still.drift t d _).lock.mpr (hlock ha), fun ha => ?_⟩
    cases d <;> exact hnone ha

/-! ### What is held -/

/-- What is held, and where it was had from. -/
def heldFrom (w : World) : Option (Bytes × Source) :=
  w.held.map fun held => (held.secret, held.source)

theorem heldFrom_eq_none {w : World} : heldFrom w = none ↔ w.held = none := by
  simp [heldFrom]

theorem held_ne_none {w : World} {held : Bytes × Source} (h : heldFrom w = some held) :
    w.held ≠ none := by
  intro hnone
  rw [heldFrom_eq_none.mpr hnone] at h
  cases h

theorem legal_heldFrom (h : (rules unlock).Legal s t act s') :
    heldFrom s'.shared = heldFrom s.shared ∨
      (∃ secret source, act = .noted (.inl (.holding secret source)) ∧
        heldFrom s'.shared = some (secret, source) ∧ s.shared.held = none) ∨
      s'.shared.held = none := by
  cases h with
  | started _ hx => exact .inl (by rw [Stage.push_shared, ← Option.some.inj hx])
  | began _ _ => exact .inl rfl
  | answered _ hx =>
    left
    rw [Stage.push_shared, World.effect_eq hx]
    rfl
  | @noted e _ hr =>
    cases e with
    | inr supplied => exact .inl rfl
    | inl e =>
      cases e with
      | holding secret source => exact .inr (.inl ⟨secret, source, rfl, rfl, hr.1.2⟩)
      | touched =>
        left
        show (s.shared.held.map _).map _ = s.shared.held.map _
        rw [Option.map_map]
        rfl
      | rejected => exact .inr (.inr (World.reject_held _))
      | forgotten => exact .inr (.inr rfl)
      | expired => exact .inr (.inr rfl)
      | _ => exact .inl rfl
  | ended _ _ => exact .inl rfl

def Drops (x : Entry vaultCalls) : Prop := x.before.held ≠ none ∧ x.after.held = none

/-- What is held stays held until it is dropped. -/
theorem heldFrom_kept {mid older : List (Entry vaultCalls)} {y : Entry vaultCalls}
    {held : Bytes × Source} (h : Lawful unlock s) (hs : s.history = mid ++ y :: older)
    (hy : heldFrom y.after = some held) (hmid : ∀ z ∈ mid, ¬ Drops z) :
    heldFrom s.shared = some held := by
  induction h generalizing mid with
  | start _ => exact absurd hs (by simp)
  | @act s s' u act _ hl ih =>
    rw [hl.history] at hs
    rcases List.cons_eq_append_iff.mp hs with ⟨rfl, hcons⟩ | ⟨mid', rfl, hrest⟩
    · obtain ⟨rfl, -⟩ := List.cons.inj hcons
      exact hy
    · have hheld := ih hrest fun z hz => hmid z (List.mem_cons_of_mem _ hz)
      rcases legal_heldFrom hl with heq | ⟨secret, source, -, -, hnone⟩ | hnone
      · exact heq.trans hheld
      · exact absurd hnone (held_ne_none hheld)
      · exact absurd ⟨held_ne_none hheld, hnone⟩ (hmid _ List.mem_cons_self)
  | drift d _ ih =>
    rw [← ih hs hmid]
    cases d <;> rfl

/-- What a thread left as it last acted stands still while it has the lock. -/
theorem still_since_own {x : Entry vaultCalls} {rest : List (Entry vaultCalls)}
    (h : Lawful unlock s) (hown : s.own t = x :: rest) : Still t x.after s.shared := by
  induction h with
  | start _ => exact absurd hown nofun
  | @act s s' u act _ hl ih =>
    by_cases hut : u = t
    · subst hut
      rw [hl.own] at hown
      obtain ⟨rfl, -⟩ := List.cons.inj hown
      exact .refl u _
    · rw [hl.own_of_ne hut] at hown
      exact (ih hown).trans (legal_still hl hut)
  | drift d _ ih => exact (ih hown).trans (.drift t d _)

theorem free_of_released {x : Entry vaultCalls} {rest : List (Entry vaultCalls)}
    (h : Lawful unlock s) (hown : s.own t = x :: rest) (hact : x.act = .noted (.inl .heldReleased)) :
    s.shared.heldLock ≠ some t := by
  have hx : x ∈ s.own t := hown ▸ List.mem_cons_self
  obtain ⟨newer, older, hs⟩ := List.append_of_mem (Stage.mem_own.mp hx).1
  obtain ⟨s₀, -, -, -, hafter, -⟩ := h.noted_of_cut hs hact
  rw [Ne, (still_since_own h hown).lock, hafter]
  exact nofun

end VaultCall

end LastpassSshAgent
