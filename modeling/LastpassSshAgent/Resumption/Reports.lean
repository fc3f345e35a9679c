import LastpassSshAgent.Resumption.Pool
import LastpassSshAgent.Resumption.Traces

/-!
# Calls that put what they came to on record

A call runs against an interface that has tasks of another kind, or none of its own. Its
result is one more entry of the history, so what each call of a pool returned can be set
against what the others did meanwhile.
-/

namespace Resumption

variable {I : Interface} {Task Report α β : Type}

/-- `I` with tasks of another kind, each reporting what it came to. -/
abbrev Interface.reporting (I : Interface) (Task Report : Type) : Interface where
  State := I.State
  Event := I.Event ⊕ Report
  Query := I.Query
  Answer := I.Answer
  Task := Task
  Drift := I.Drift
  apply e x := e.elim (fun e => I.apply e x) fun _ => x
  effect := I.effect
  launch _ x := some x
  drift := I.drift

namespace Program

def within (Task Report : Type) : Program I α → Program (I.reporting Task Report) α
  | .done a => .done a
  | .read next => .read fun x => (next x).within Task Report
  | .emit e next => .emit (.inl e) (next.within Task Report)
  | .await q next => .await q fun a => (next a).within Task Report

theorem within_bind (p : Program I α) (f : α → Program I β) :
    (p.bind f).within Task Report =
      (p.within Task Report).bind fun a => (f a).within Task Report := by
  induction p with
  | done a => rfl
  | read next ih => simp only [bind, within, ih]
  | emit e next ih => simp only [bind, within, ih]
  | await q next ih => simp only [bind, within, ih]

theorem Emits.within {A : Act I → Prop} {B : Act (I.reporting Task Report) → Prop}
    {p : Program I α} (h : p.Emits A) (hnoted : ∀ e, A (.noted e) → B (.noted (.inl e)))
    (hbegan : ∀ q, A (.began q) → B (.began q))
    (hanswered : ∀ q a, A (.answered q a) → B (.answered q a)) :
    (p.within Task Report).Emits B := by
  induction p with
  | done a => trivial
  | read next ih => exact fun x => ih x (h x)
  | emit e next ih => exact ⟨hnoted e h.1, ih h.2⟩
  | await q next ih => exact ⟨hbegan q h.1, fun a => ⟨hanswered q a (h.2 a).1, ih a (h.2 a).2⟩⟩

/-- A call: the program, and then its result put on record. -/
def reporting (Task : Type) (report : α → Report) (p : Program I α) :
    Program (I.reporting Task Report) Unit :=
  (p.within Task Report).bind fun a => tell (I := I.reporting Task Report) (.inr (report a))

end Program

/-! ### What a thread did next -/

/-- The entries that are thread `t`'s own, newest first. -/
def Stage.own (t : ℕ) (s : Stage I) : List (Entry I) := s.history.filter (·.tid == t)

theorem Stage.own_push_self (t : ℕ) (s : Stage I) (act : Act I) (x : I.State) :
    (s.push t act x).own t = ⟨t, act, s.shared, x⟩ :: s.own t := by
  simp [own]

theorem Stage.own_push_of_ne (s : Stage I) {t u : ℕ} (h : u ≠ t) (act : Act I) (x : I.State) :
    (s.push u act x).own t = s.own t := by
  simp [own, h]

theorem Stage.mem_own {s : Stage I} {t : ℕ} {x : Entry I} :
    x ∈ s.own t ↔ x ∈ s.history ∧ x.tid = t := by
  simp [own]

theorem Stage.last_eq_own (s : Stage I) (t : ℕ) : s.last t = (s.own t).head?.map Entry.act := by
  rw [last, own, List.head?_filter]

theorem Stage.acts_eq_own (s : Stage I) (t : ℕ) : s.acts t = (s.own t).map Entry.act := rfl

theorem Stage.did_iff {s : Stage I} {t : ℕ} {act : Act I} : s.Did t act ↔ act ∈ s.acts t := by
  simp [Did, acts, and_assoc]

/-- In the history `entries`, `y` is what the thread of `x` did right after `x`. -/
def Follows (entries : List (Entry I)) (x y : Entry I) : Prop :=
  ∃ newer mid older, entries = newer ++ y :: (mid ++ x :: older) ∧ y.tid = x.tid ∧
    ∀ z ∈ mid, z.tid ≠ x.tid

theorem Follows.mem {entries : List (Entry I)} {x y : Entry I} (h : Follows entries x y) :
    y ∈ entries := by
  obtain ⟨newer, mid, older, rfl, -⟩ := h
  simp

theorem Follows.tid {entries : List (Entry I)} {x y : Entry I} (h : Follows entries x y) :
    y.tid = x.tid := by
  obtain ⟨newer, mid, older, -, htid, -⟩ := h
  exact htid

theorem Follows.of_own {newer older : List (Entry I)} {x y : Entry I} {s₀ : Stage I}
    {rest : List (Entry I)} (hh : s₀.history = older) (hown : s₀.own y.tid = x :: rest) :
    Follows (newer ++ y :: older) x y := by
  rw [Stage.own, hh] at hown
  obtain ⟨mid, older', rfl, hmid, hx, -⟩ := List.filter_eq_cons_iff.mp hown
  have hxy : x.tid = y.tid := by simpa using hx
  exact ⟨newer, mid, older', rfl, hxy.symm, fun z hz => by simpa [hxy] using hmid z hz⟩

namespace Rules

variable {R : Rules I} {init : I.State → Prop} {t : ℕ} {s s' : Stage I}

theorem Others.own (h : R.Others t s s') : s'.own t = s.own t := by
  induction h with
  | refl => rfl
  | act _ hu h ih => rw [h.eq_push, Stage.own_push_of_ne _ hu, ih]
  | drift d _ ih => exact ih

theorem Legal.acts {act : Act I} (h : R.Legal s t act s') : s'.acts t = act :: s.acts t := by
  rw [h.eq_push, Stage.acts_push_self]

theorem Legal.acts_of_ne {u : ℕ} {act : Act I} (h : R.Legal s u act s') (hu : u ≠ t) :
    s'.acts t = s.acts t := by
  rw [h.eq_push, Stage.acts_push_of_ne _ hu]

theorem Legal.own {act : Act I} (h : R.Legal s t act s') :
    s'.own t = ⟨t, act, s.shared, s'.shared⟩ :: s.own t := by
  rw [h.eq_push, Stage.own_push_self]
  rfl

theorem Legal.own_of_ne {u : ℕ} {act : Act I} (h : R.Legal s u act s') (hu : u ≠ t) :
    s'.own t = s.own t := by
  rw [h.eq_push, Stage.own_push_of_ne _ hu]

theorem Lawful.started_once (h : R.Lawful init s) {task task' : I.Task}
    (ht : s.Did t (.started task)) (ht' : s.Did t (.started task')) : task = task' := by
  obtain ⟨x, hx, hxt, hxa⟩ := ht
  obtain ⟨y, hy, hyt, hya⟩ := ht'
  obtain rfl := h.started_unique hx hy (hxt.trans hyt.symm) hxa hya
  exact Act.started.inj (hxa.symm.trans hya)

theorem Lawful.started (h : R.Lawful init s) (hown : s.last t ≠ none) :
    ∃ task, s.Did t (.started task) := by
  induction h with
  | start _ => exact absurd rfl hown
  | @act s s' u act _ hl ih =>
    have hsuffix : s.history <:+ s'.history := hl.history ▸ List.suffix_cons _ _
    have hgo : s.last t ≠ none → ∃ task, s'.Did t (.started task) := fun h =>
      (ih h).imp fun _ hd => hd.mono hsuffix
    by_cases hut : u = t
    · subst hut
      cases hl with
      | @started task _ _ _ => exact ⟨task, Stage.did_push_self _ _ _ _⟩
      | began hl _ => exact hgo (by obtain ⟨_, hl, -⟩ := hl; simp [hl])
      | answered hl _ => exact hgo (by simp [hl])
      | noted hl _ => exact hgo (by obtain ⟨_, hl, -⟩ := hl; simp [hl])
      | ended hl _ => exact hgo (by obtain ⟨_, hl, -⟩ := hl; simp [hl])
    · exact hgo (hl.last_of_ne hut ▸ hown)
  | drift d _ ih => exact ih hown

theorem Orderly.rests {P : Pool I} (hP : R.Orderly init P) {act : Act I}
    (h : P.stage.last t = some act) : act = .ended ∨ ∃ q, act = .began q := by
  cases hp : P.threads t with
  | none => exact absurd (h.symm.trans (hP.fresh t hp)) nofun
  | some p =>
    have hw := hP.waiting t p hp
    cases p with
    | done a => exact .inl (Option.some.inj (h.symm.trans hw))
    | await q next => exact .inr ⟨q, Option.some.inj (h.symm.trans hw.1)⟩
    | read next => exact hw.elim
    | emit e next => exact hw.elim

theorem oldest_own {t : ℕ} {entries : List (Entry I)} (h : ∃ z ∈ entries, z.tid = t) :
    ∃ newer y mid, entries = newer ++ y :: mid ∧ y.tid = t ∧ ∀ z ∈ mid, z.tid ≠ t := by
  induction entries with
  | nil => simp at h
  | cons z entries ih =>
    by_cases hlater : ∃ w ∈ entries, w.tid = t
    · obtain ⟨newer, y, mid, rfl, hy, hmid⟩ := ih hlater
      exact ⟨z :: newer, y, mid, rfl, hy, hmid⟩
    · have hnone : ∀ w ∈ entries, w.tid ≠ t := fun w hw hwt => hlater ⟨w, hw, hwt⟩
      refine ⟨[], z, entries, rfl, ?_, hnone⟩
      obtain ⟨w, hw, hwt⟩ := h
      rcases List.mem_cons.mp hw with rfl | hw
      · exact hwt
      · exact absurd hwt (hnone w hw)

/-- What a thread does that is not waiting or ending, it follows up; and by the rules. -/
theorem Orderly.follows {P : Pool I} (hP : R.Orderly init P) {x : Entry I}
    (hx : x ∈ P.stage.history) (hended : x.act ≠ .ended) (hbegan : ∀ q, x.act ≠ .began q) :
    ∃ y s₀, Follows P.stage.history x y ∧ R.Lawful init s₀ ∧ s₀.shared = y.before ∧
      (∃ rest, s₀.own x.tid = x :: rest) ∧ s₀.history <:+ P.stage.history ∧
      R.Legal s₀ x.tid y.act ⟨y.after, y :: s₀.history⟩ := by
  obtain ⟨newer, older, hcut⟩ := List.append_of_mem hx
  by_cases hlater : ∃ z ∈ newer, z.tid = x.tid
  · obtain ⟨newer', y, mid, rfl, hy, hmid⟩ := oldest_own hlater
    have hcut' : P.stage.history = newer' ++ y :: (mid ++ x :: older) := by
      rw [hcut, List.append_assoc, List.cons_append]
    obtain ⟨s₀, h₀, hh, hb, hl, -⟩ := hP.lawful.cut hcut'
    refine ⟨y, s₀, ⟨newer', mid, older, hcut', hy, hmid⟩, h₀, hb, ?_, ?_, ?_⟩
    · rw [Stage.own, hh, List.filter_append, List.filter_eq_nil_iff.mpr (by simpa using hmid)]
      simp
    · exact hh ▸ suffix_of_cut hcut'
    · rw [hh, ← hy]
      exact hl
  · have hnone : ∀ z ∈ newer, z.tid ≠ x.tid := fun z hz hzt => hlater ⟨z, hz, hzt⟩
    have hlast : P.stage.last x.tid = some x.act := by
      rw [Stage.last, hcut, List.find?_append, List.find?_eq_none.mpr (by simpa using hnone)]
      simp
    rcases hP.rests hlast with h | ⟨q, h⟩
    · exact absurd h hended
    · exact absurd h (hbegan q)

end Rules

end Resumption
