import LastpassSshAgent.Conduct

/-!
# Where a thread stands, and what its own run leaves behind

`At` is what a thread knows of itself wherever it is; nothing the others do changes
it. `Since` and `Ran` collect what a stretch of its run does to the shared world.
-/

namespace LastpassSshAgent

open Resumption

/-- The locks a thread holds, and the vault call it is in. -/
structure Position where
  gate : Bool
  lock : Bool
  call : Option MasterPasswordSource

structure Stands (t : ℕ) (p : Position) (s : Stage runtime) : Prop where
  gate : s.shared.gate = some t ↔ p.gate = true
  lock : s.shared.heldLock = some t ↔ p.lock = true
  call : calling s t = p.call

structure At (t : ℕ) (p : Position) (s : Stage runtime) : Prop extends Stands t p s where
  undecided : Undecided s t

/-- The acts of a stretch in which the thread asks for the master password `n` times. -/
def Later (n : ℕ) : Act runtime → Prop
  | .started _ => False
  | .noted .asked => 0 < n
  | _ => True

/-- From `s` to `s'` thread `t` has kept the gate if it had it, and has itself made
every ask made while it did. -/
structure Since (t n : ℕ) (s s' : Stage runtime) : Prop where
  history : s.history <:+ s'.history
  own : ∀ x ∈ s'.history, x.tid = t → x ∈ s.history ∨ Later n x.act
  locks : s.shared.epoch.locks ≤ s'.shared.epoch.locks
  gate : s.shared.gate = some t → s'.shared.gate = some t
  unlocks : s.shared.gate = some t →
    s'.shared.epoch.unlocks = s.shared.epoch.unlocks + n

def Ran (t : ℕ) (source : MasterPasswordSource) (s s' : Stage runtime) : Prop :=
  ∃ n, Since t n s s' ∧ (0 < n → source = .unlock ∧ s'.Did t (.noted .asked))

/-- What the other threads leave of thread `t`. -/
structure Spared (t : ℕ) (s s' : Stage runtime) : Prop where
  history : s.history <:+ s'.history
  own : (s'.history.filter fun x => x.tid == t) = s.history.filter fun x => x.tid == t
  world : World.Spares t s.shared s'.shared

variable {env : Env} {t u n m : ℕ} {p : Position} {s s' s'' : Stage runtime}
  {source : MasterPasswordSource} {q : Query} {e : Event}

/-! ### A thread's own part of a longer history -/

theorem calling_push (s : Stage runtime) (t : ℕ) (act : Act runtime) (x : World) :
    calling (s.push t act x) t = ((callMark act).elim (calling s t) id) := by
  cases h : callMark act <;> simp [calling, h]

theorem Undecided.push (h : Undecided s t) {act : Act runtime} (ha : ¬ Decides act) (x : World) :
    Undecided (s.push t act x) t := by
  intro y hy hyt
  rcases List.mem_cons.mp hy with rfl | hy
  · exact ha
  · exact h y hy hyt

theorem Unfetched.push (h : Unfetched s t) {act : Act runtime} (ha : ¬ HandsOver act) (x : World) :
    Unfetched (s.push t act x) t := by
  intro y hy hyt
  rcases List.mem_cons.mp hy with rfl | hy
  · exact ha
  · exact h y hy hyt

theorem Idle.push (h : Idle s t) {act : Act runtime} {x : World}
    (hx : x = { s.shared with gate := x.gate }) : Idle (s.push t act x) t := by
  intro y hy hyt
  rcases List.mem_cons.mp hy with rfl | hy
  · exact hx
  · exact h y hy hyt

theorem Later.mono {n m : ℕ} {act : Act runtime} (h : Later n act) (hnm : n ≤ m) : Later m act := by
  cases act with
  | noted e =>
    cases e <;> first
      | exact trivial
      | exact lt_of_lt_of_le h hnm
  | started task => exact h
  | _ => trivial

theorem Untried.push (h : Untried s t) {act : Act runtime} {x : World}
    (hx : x = { s.shared with gate := x.gate }) (ha : ∀ ctx d, act ≠ .answered (.confirm ctx) d) :
    Untried (s.push t act x) t := by
  refine ⟨h.idle.push hx, fun y hy hyt => ?_⟩
  rcases List.mem_cons.mp hy with rfl | hy
  · exact ha
  · exact h.unconfirmed y hy hyt

namespace Since

theorem refl (t : ℕ) (s : Stage runtime) : Since t 0 s s :=
  ⟨List.suffix_refl _, fun _ hx _ => .inl hx, le_rfl, id, fun _ => rfl⟩

theorem trans (h : Since t n s s') (h' : Since t m s' s'') : Since t (n + m) s s'' where
  history := h.history.trans h'.history
  own x hx hxt := by
    rcases h'.own x hx hxt with hx | hx
    · exact (h.own x hx hxt).imp_right fun hl => hl.mono (Nat.le_add_right n m)
    · exact .inr (hx.mono (Nat.le_add_left m n))
  locks := h.locks.trans h'.locks
  gate hg := h'.gate (h.gate hg)
  unlocks hg := by rw [h'.unlocks (h.gate hg), h.unlocks hg, Nat.add_assoc]

theorem push {act : Act runtime} {x : World} (ha : Later n act)
    (hl : s.shared.epoch.locks ≤ x.epoch.locks)
    (hg : s.shared.gate = some t → x.gate = some t)
    (hu : s.shared.gate = some t → x.epoch.unlocks = s.shared.epoch.unlocks + n) :
    Since t n s (s.push t act x) where
  history := List.suffix_cons _ _
  own y hy _ := by
    rcases List.mem_cons.mp hy with rfl | hy
    · exact .inr ha
    · exact .inl hy
  locks := hl
  gate := hg
  unlocks := hu

theorem unasked (h : Since t 0 s s') (hs : ¬ s.Did t (.noted .asked)) :
    ¬ s'.Did t (.noted .asked) := by
  rintro ⟨x, hx, hxt, hxa⟩
  rcases h.own x hx hxt with hx | hx
  · exact hs ⟨x, hx, hxt, hxa⟩
  · rw [hxa] at hx
    exact absurd hx (lt_irrefl 0)

theorem started (h : Since t n s s') (task : Task)
    (hd : s'.Did t (.started task)) : s.Did t (.started task) := by
  obtain ⟨x, hx, hxt, hxa⟩ := hd
  rcases h.own x hx hxt with hx | hx
  · exact ⟨x, hx, hxt, hxa⟩
  · rw [hxa] at hx
    exact hx.elim

end Since

namespace Ran

theorem of_since (h : Since t 0 s s') : Ran t source s s' := ⟨0, h, nofun⟩

theorem refl (t : ℕ) (source : MasterPasswordSource) (s : Stage runtime) : Ran t source s s :=
  of_since (.refl t s)

theorem trans (h : Ran t source s s') (h' : Ran t source s' s'') : Ran t source s s'' := by
  obtain ⟨n, hn, hask⟩ := h
  obtain ⟨m, hm, hask'⟩ := h'
  refine ⟨n + m, hn.trans hm, fun hpos => ?_⟩
  by_cases h0 : 0 < m
  · exact hask' h0
  · obtain ⟨hsrc, hdid⟩ := hask (by omega)
    exact ⟨hsrc, hdid.mono hm.history⟩

theorem history (h : Ran t source s s') : s.history <:+ s'.history := by
  obtain ⟨n, hn, -⟩ := h
  exact hn.history

theorem since (h : Ran t source s s') (hs : source ≠ .unlock) : Since t 0 s s' := by
  obtain ⟨n, hn, hask⟩ := h
  have h0 : n = 0 := Nat.eq_zero_of_not_pos fun hpos => hs (hask hpos).1
  exact h0 ▸ hn

end Ran

/-! ### What the others leave alone -/

namespace Spared

theorem refl (t : ℕ) (s : Stage runtime) : Spared t s s := ⟨List.suffix_refl _, rfl, .refl t _⟩

theorem trans (h : Spared t s s') (h' : Spared t s' s'') : Spared t s s'' :=
  ⟨h.history.trans h'.history, h'.own.trans h.own, h.world.trans h'.world⟩

theorem mem (h : Spared t s s') {x : Entry runtime} (hx : x ∈ s'.history) (ht : x.tid = t) :
    x ∈ s.history := by
  have hf : x ∈ s'.history.filter fun y => y.tid == t := by simp [hx, ht]
  rw [h.own] at hf
  exact (List.mem_filter.mp hf).1

theorem stands (h : Spared t s s') (hs : Stands t p s) : Stands t p s' where
  gate := h.world.gate.trans hs.gate
  lock := h.world.lock.trans hs.lock
  call := by
    rw [← hs.call, calling, h.own]
    rfl

theorem undecided (h : Spared t s s') (hs : Undecided s t) : Undecided s' t :=
  fun x hx hxt => hs x (h.mem hx hxt) hxt

theorem since (h : Spared t s s') : Since t 0 s s' where
  history := h.history
  own _ hx hxt := .inl (h.mem hx hxt)
  locks := h.world.locks
  gate := h.world.gate.mpr
  unlocks := h.world.unlocks

theorem unfetched (h : Spared t s s') (hs : Unfetched s t) : Unfetched s' t :=
  fun x hx hxt => hs x (h.mem hx hxt) hxt

theorem idle (h : Spared t s s') (hi : Idle s t) : Idle s' t :=
  fun x hx hxt => hi x (h.mem hx hxt) hxt

theorem untried (h : Spared t s s') (hi : Untried s t) : Untried s' t :=
  ⟨h.idle hi.idle, fun x hx hxt => hi.unconfirmed x (h.mem hx hxt) hxt⟩

end Spared

/-- Nobody's legal act touches what another thread holds. -/
theorem spares_of_legal {act : Act runtime} (h : env.rules.Legal s u act s') (hu : u ≠ t) :
    World.Spares t s.shared s'.shared := by
  have hne : ∀ {o : Option ℕ}, o = some u → o ≠ some t := by
    rintro o rfl ho
    exact hu (Option.some.inj ho)
  cases h with
  | started _ hx => exact .launch hx t
  | began _ _ => exact .refl t _
  | answered _ hx => exact .effect hx hu
  | @noted e _ hr =>
    refine .apply ?_ ?_ ?_ ?_
    · rintro rfl
      exact hne hr.2.1
    · rintro rfl
      exact hne hr.2
    · rintro rfl
      exact hne hr.2.1.1
    · intro he
      cases e <;> first
        | exact absurd he id
        | exact hne hr.2
        | exact hne hr.2.1
  | ended _ _ => exact .refl t _

theorem spared_of_others (h : env.rules.Others t s s') : Spared t s s' := by
  induction h with
  | refl => exact .refl t s
  | @act s₁ s₂ u act _ hu hl ih =>
    refine ih.trans ⟨?_, ?_, spares_of_legal hl hu⟩
    · exact hl.history ▸ List.suffix_cons _ _
    · rw [hl.history]
      simp [hu]
  | drift d _ ih => exact ih.trans ⟨List.suffix_refl _, rfl, .drift t d _⟩

/-! ### Waiting and noting -/

/-- Where a thread stands after noting an event. -/
def Position.after (p : Position) : Event → Position
  | .gateReleased => { p with gate := false }
  | .heldReleased => { p with lock := false }
  | .called source _ _ => { p with call := some source }
  | .returned _ _ _ _ => { p with call := none }
  | _ => p

theorem Stands.note (h : Stands t p s) (e : Event) : Stands t (p.after e) (s.note t e) where
  gate := by
    by_cases he : e = .gateReleased
    · subst he
      simp [World.apply, Position.after]
    · have hp : (p.after e).gate = p.gate := by cases e <;> simp_all [Position.after]
      rw [Stage.note_shared, hp]
      exact (iff_of_eq (congrArg (· = some t) (World.apply_gate he))).trans h.gate
  lock := by
    by_cases he : e = .heldReleased
    · subst he
      simp [World.apply, Position.after]
    · have hp : (p.after e).lock = p.lock := by cases e <;> simp_all [Position.after]
      rw [Stage.note_shared, hp]
      exact (iff_of_eq (congrArg (· = some t) (World.apply_heldLock he))).trans h.lock
  call := by
    rw [Stage.note, calling_push, h.call]
    cases e <;> rfl

theorem At.note (h : At t p s) (hd : ¬ Decides (.noted e)) : At t (p.after e) (s.note t e) :=
  ⟨h.toStands.note e, h.undecided.push hd _⟩

theorem Since.note (hg : e ≠ .gateReleased) (ha : e ≠ .asked) : Since t 0 s (s.note t e) := by
  refine .push ?_ (World.apply_locks_le e _) (fun h => (World.apply_gate hg).trans h) fun _ =>
    World.apply_unlocks ha
  cases e <;> first
    | exact trivial
    | exact absurd rfl ha

theorem Since.note_asked : Since t 1 s (s.note t .asked) :=
  .push Nat.one_pos le_rfl id fun _ => rfl

theorem Since.begin (s : Stage runtime) (t : ℕ) (q : Query) : Since t 0 s (s.begin t q) :=
  .push trivial le_rfl id fun _ => rfl

theorem Stands.push (h : Stands t p s) {act : Act runtime} {x : World} (hm : callMark act = none)
    (hg : x.gate = s.shared.gate) (hl : x.heldLock = s.shared.heldLock) :
    Stands t p (s.push t act x) where
  gate := (iff_of_eq (congrArg (· = some t) hg)).trans h.gate
  lock := (iff_of_eq (congrArg (· = some t) hl)).trans h.lock
  call := by
    rw [calling_push, hm]
    exact h.call

theorem started_note {e : Event} {task : Task} (h : (s.note t e).Did t (.started task)) :
    s.Did t (.started task) := by
  obtain ⟨x, hx, hxt, hxa⟩ := h
  rcases List.mem_cons.mp hx with rfl | hx
  · cases hxa
  · exact ⟨x, hx, hxt, hxa⟩

section wp

variable {α : Type} {Q : α → Stage runtime → Prop}

theorem wp_note {f : Unit → Async α} (hu : Undecided s t) (hmay : MayNote s t env e)
    (h : env.rules.wp t (f ()) Q (s.note t e)) : env.rules.wp t (note e >>= f) Q s :=
  ⟨⟨.inl hu, hmay⟩, h⟩

theorem wp_await {f : q.Answer → Async α} (hat : At t p s) (hmay : MayBegin s t env q)
    (hpause : ∀ s₁, At t p s₁ → MayPause t q s₁)
    (h : ∀ a s₁ x, At t p s₁ → Spared t (s.begin t q) s₁ →
      World.effect t q a s₁.shared = some x →
        env.rules.wp t (f a) Q (s₁.push t (.answered q a) x)) :
    env.rules.wp t (await q >>= f) Q s := by
  refine ⟨⟨.inl hat.undecided, hmay⟩, fun s₁ h₁ => ?_⟩
  have hspared := spared_of_others h₁
  have hat₁ : At t p s₁ :=
    ⟨hspared.stands (hat.toStands.push rfl rfl rfl), hspared.undecided (hat.undecided.push id _)⟩
  exact ⟨hpause s₁ hat₁, fun a x hx => h a s₁ x hat₁ hspared hx⟩

/-- What thread `t` knows once it has heard the answer `a` to `q`. -/
structure Heard (t : ℕ) (p : Position) (q : Query) (a : q.Answer) (s s' : Stage runtime) :
    Prop extends Stands t p s' where
  entry : ⟨t, .answered q a, s'.shared, s'.shared⟩ ∈ s'.history
  since : Since t 0 s s'
  undecided : ¬ Decides (.answered q a) → Undecided s' t
  held : s.shared.heldLock = some t → s'.shared.held = s.shared.held
  idle : Idle s t → Idle s' t
  untried : (∀ ctx, q ≠ .confirm ctx) → Untried s t → Untried s' t

theorem Heard.at {a : q.Answer} (h : Heard t p q a s s') (hd : ¬ Decides (.answered q a)) :
    At t p s' := ⟨h.toStands, h.undecided hd⟩

theorem wp_call {f : q.Answer → Async α} (hg : q ≠ .gate) (hh : q ≠ .held) (hat : At t p s)
    (hmay : MayBegin s t env q)
    (hlock : p.lock = true → q = .masterStore ∨ ∃ request, q = .prompt request)
    (hcount : ∀ count, q = .nextProbe count → 0 < count)
    (h : ∀ a s', Heard t p q a s s' → env.rules.wp t (f a) Q s') :
    env.rules.wp t (await q >>= f) Q s := by
  refine wp_await hat hmay ?_ ?_
  · exact fun s₁ hat₁ => ⟨fun hq => absurd hq hg, fun hl => hlock (hat₁.lock.mp hl), hcount⟩
  · intro a s₁ x hat₁ hspared hx
    obtain rfl := World.effect_call hg hh hx
    refine h a _ ⟨hat₁.toStands.push rfl rfl rfl, List.mem_cons_self, ?_, ?_, ?_, ?_, ?_⟩
    · have hpush : Since t 0 s₁ (s₁.push t (.answered q a) s₁.shared) :=
        .push trivial le_rfl id fun _ => rfl
      exact ((Since.begin s t q).trans hspared.since).trans hpush
    · exact fun hd => hat₁.undecided.push hd _
    · exact fun hl => hspared.world.held hl
    · exact fun hi => (hspared.idle (hi.push rfl)).push rfl
    · intro hq hi
      refine (hspared.untried (hi.push rfl nofun)).push rfl ?_
      rintro ctx d heq
      cases heq
      exact hq ctx rfl

theorem Stands.unlocked (h : Stands t p s) (hp : p.lock = false) : s.shared.heldLock ≠ some t :=
  fun hl => Bool.false_ne_true (hp ▸ h.lock.mp hl)

theorem Stands.ungated (h : Stands t p s) (hp : p.gate = false) : s.shared.gate ≠ some t :=
  fun hg => Bool.false_ne_true (hp ▸ h.gate.mp hg)

theorem wp_held {f : Query.Answer .held → Async α} (hat : At t p s) (hl : p.lock = false)
    (h : ∀ a s', At t { p with lock := true } s' → Since t 0 s s' →
      env.rules.wp t (f a) Q s') :
    env.rules.wp t (await .held >>= f) Q s := by
  refine wp_await hat (hat.unlocked hl) ?_ ?_
  · exact fun s₁ hat₁ => ⟨nofun, fun hlock => absurd hlock (hat₁.unlocked hl), nofun⟩
  · intro a s₁ x hat₁ hspared hx
    obtain ⟨-, rfl⟩ := World.effect_held hx
    refine h a _ ⟨⟨hat₁.gate, by simp, ?_⟩, hat₁.undecided.push id _⟩ ?_
    · rw [calling_push]
      exact hat₁.call
    · have hpush : Since t 0 s₁
          (s₁.push t (.answered .held a) { s₁.shared with heldLock := some t }) :=
        .push trivial le_rfl id fun _ => rfl
      exact ((Since.begin s t .held).trans hspared.since).trans hpush

theorem wp_enter {f : Bool → Async α} (hat : At t p s) (hl : p.lock = false)
    (hserve : p.gate = false → ∃ job, Serves s t env job)
    (h : ∀ s', At t { p with gate := true } s' → Since t 0 s s' → (Untried s t → Untried s' t) →
      (Unfetched s t → Unfetched s' t) → env.rules.wp t (f true) Q s') :
    env.rules.wp t (InteractionGate.enter p.gate >>= f) Q s := by
  obtain ⟨gate, lock, call⟩ := p
  cases gate with
  | true => exact h s hat (.refl t s) id id
  | false =>
    have hno : s.shared.gate ≠ some t := hat.ungated rfl
    refine wp_await (f := fun _ => f true) hat ⟨hno, hserve rfl⟩ ?_ ?_
    · exact fun s₁ hat₁ => ⟨fun _ => hat₁.ungated rfl,
        fun hlock => absurd hlock (hat₁.unlocked hl), nofun⟩
    · intro a s₁ x hat₁ hspared hx
      obtain ⟨-, rfl⟩ := World.effect_gate hx
      refine h _ ⟨⟨by simp, hat₁.lock, ?_⟩, hat₁.undecided.push id _⟩ ?_ ?_ ?_
      · rw [calling_push]
        exact hat₁.call
      · have hpush : Since t 0 s₁
            (s₁.push t (.answered .gate a) { s₁.shared with gate := some t }) :=
          .push trivial le_rfl (fun _ => rfl) fun _ => rfl
        exact ((Since.begin s t .gate).trans hspared.since).trans hpush
      · exact fun hi => (hspared.untried (hi.push rfl nofun)).push rfl nofun
      · exact fun hi => (hspared.unfetched (hi.push id _)).push id _

end wp

end LastpassSshAgent
