import Mathlib.Logic.Function.Basic
import LastpassSshAgent.Resumption.Rules

/-!
# Pools of threads and the stages they reach

A pool steps by starting a task, by answering one waiting thread, which then runs
to its next await, or by the environment drifting. The main theorem is that a
pool whose code upholds its rules stays orderly: every reachable stage is lawful
and every waiting thread can be resumed under its precondition.
-/

namespace Resumption

variable {I : Interface}

structure Pool (I : Interface) where
  stage : Stage I
  threads : ℕ → Option (Program I Unit)

namespace Pool

def start (x : I.State) : Pool I := ⟨⟨x, []⟩, fun _ => none⟩

/-- Let thread `t` go on with `p` from stage `s` until it waits again. -/
def resume (P : Pool I) (t : ℕ) (p : Program I Unit) (s : Stage I) : Pool I :=
  ⟨(advance t p s).2, Function.update P.threads t (some (advance t p s).1)⟩

inductive Step (code : I.Task → Program I Unit) (P : Pool I) : Pool I → Prop
  | spawn {t : ℕ} {task : I.Task} {x : I.State} (hn : P.threads t = none)
      (hx : I.launch task P.stage.shared = some x) :
      P.Step code (P.resume t (code task) (P.stage.push t (.started task) x))
  | answer {t : ℕ} {q : I.Query} {next : I.Answer q → Program I Unit} {a : I.Answer q}
      {x : I.State} (ht : P.threads t = some (.await q next))
      (hx : I.effect t q a P.stage.shared = some x) :
      P.Step code (P.resume t (next a) (P.stage.push t (.answered q a) x))
  | drift (d : I.Drift) : P.Step code ⟨P.stage.drift d, P.threads⟩

def Reachable (code : I.Task → Program I Unit) (init : I.State → Prop) (P : Pool I) : Prop :=
  ∃ x, init x ∧ Relation.ReflTransGen (Step code) (start x) P

theorem Reachable.step {code : I.Task → Program I Unit} {init : I.State → Prop} {P P' : Pool I}
    (h : P.Reachable code init) (hs : P.Step code P') : P'.Reachable code init := by
  obtain ⟨x, hx, hr⟩ := h
  exact ⟨x, hx, hr.tail hs⟩

theorem Reachable.induct {code : I.Task → Program I Unit} {init : I.State → Prop}
    {motive : Pool I → Prop} (start : ∀ x, init x → motive (.start x))
    (step : ∀ P P', P.Reachable code init → motive P → P.Step code P' → motive P')
    {P : Pool I} (h : P.Reachable code init) : motive P := by
  obtain ⟨x, hx, hr⟩ := h
  induction hr with
  | refl => exact start x hx
  | tail hr hs ih => exact step _ _ ⟨x, hx, hr⟩ ih hs

end Pool

namespace Rules

/-- Every task's code, started at any lawful stage, keeps the rules to its end. -/
def Upheld (R : Rules I) (init : I.State → Prop) (code : I.Task → Program I Unit) : Prop :=
  ∀ task t s x, R.Lawful init s → s.last t = none → I.launch task s.shared = some x →
    R.wp t (code task) (fun _ s' => R.allowed s' t .ended) (s.push t (.started task) x)

structure Orderly (R : Rules I) (init : I.State → Prop) (P : Pool I) : Prop where
  lawful : R.Lawful init P.stage
  waiting : ∀ t p, P.threads t = some p → R.Waiting t p P.stage
  fresh : ∀ t, P.threads t = none → P.stage.last t = none

variable {R : Rules I} {init : I.State → Prop} {t : ℕ}

theorem advance_waiting {p : Program I Unit} {s : Stage I}
    (h : R.wp t p (fun _ s' => R.allowed s' t .ended) s) :
    R.Waiting t (advance t p s).1 (advance t p s).2 := by
  induction p generalizing s with
  | done a => exact s.last_push_self t .ended s.shared
  | read next ih => exact ih _ h
  | emit e next ih => exact ih h.2
  | await q next ih => exact ⟨s.last_push_self t (.began q) s.shared, h.2⟩

/-- A run to the next await is a series of the thread's own legal acts. -/
theorem advance_induct {motive : Stage I → Prop}
    (act : ∀ s act s', motive s → R.Legal s t act s' → motive s') {p : Program I Unit}
    {s : Stage I} (h : R.wp t p (fun _ s' => R.allowed s' t .ended) s) (hl : s.Live t)
    (hs : motive s) : motive (advance t p s).2 := by
  induction p generalizing s with
  | done a => exact act _ _ _ hs (.ended hl h)
  | read next ih => exact ih _ h hl hs
  | emit e next ih =>
    exact ih h.2 (.of_last (s.last_push_self t _ _) nofun) (act _ _ _ hs (.noted hl h.1))
  | await q next ih => exact act _ _ _ hs (.began hl h.1)

theorem Waiting.others {p : Program I Unit} {s s₁ : Stage I} (h : R.Waiting t p s)
    (hs : R.Others t s s₁) : R.Waiting t p s₁ := by
  cases p with
  | done a => exact hs.last.trans h
  | read next => exact h
  | emit e next => exact h
  | await q next => exact ⟨hs.last.trans h.1, fun s₂ h₂ => h.2 s₂ (hs.trans h₂)⟩

theorem Orderly.resume {P : Pool I} (hP : R.Orderly init P) {act : Act I} {s : Stage I}
    (hl : R.Legal P.stage t act s) (hact : act ≠ .ended) {p : Program I Unit}
    (hp : R.wp t p (fun _ s' => R.allowed s' t .ended) s) : R.Orderly init (P.resume t p s) := by
  have hlive : s.Live t := .of_last hl.last_self hact
  have hothers : ∀ u, u ≠ t → R.Others u P.stage (advance t p s).2 := fun u hut =>
    advance_induct (motive := R.Others u P.stage) (fun _ _ _ hs h => hs.act (Ne.symm hut) h)
      hp hlive (.act .refl (Ne.symm hut) hl)
  constructor
  · exact advance_induct (fun _ _ _ hs h => hs.act h) hp hlive (hP.lawful.act hl)
  · intro u p' hu
    by_cases hut : u = t
    · subst hut
      have hp' : (advance u p s).1 = p' := by simpa [Pool.resume] using hu
      exact hp' ▸ advance_waiting hp
    · have hu' : P.threads u = some p' := by simpa [Pool.resume, hut] using hu
      exact (hP.waiting u p' hu').others (hothers u hut)
  · intro u hu
    by_cases hut : u = t
    · subst hut
      simp [Pool.resume] at hu
    · have hu' : P.threads u = none := by simpa [Pool.resume, hut] using hu
      exact (hothers u hut).last.trans (hP.fresh u hu')

theorem Orderly.step {code : I.Task → Program I Unit} (hR : R.Upheld init code) {P P' : Pool I}
    (hP : R.Orderly init P) (h : P.Step code P') : R.Orderly init P' := by
  cases h with
  | spawn hn hx =>
    exact hP.resume (.started (hP.fresh _ hn) hx) nofun (hR _ _ _ _ hP.lawful (hP.fresh _ hn) hx)
  | answer ht hx =>
    have hw := hP.waiting _ _ ht
    exact hP.resume (.answered hw.1 hx) nofun ((hw.2 _ .refl).2 _ _ hx)
  | drift d =>
    exact ⟨hP.lawful.drift d, fun u p hu => (hP.waiting u p hu).others (.drift d .refl), hP.fresh⟩

theorem Orderly.leads {code : I.Task → Program I Unit} (hR : R.Upheld init code) {P P' : Pool I}
    (hP : R.Orderly init P) (h : P.Step code P') : R.Leads P.stage P'.stage := by
  cases h with
  | @spawn t task x hn hx =>
    exact advance_induct (motive := R.Leads P.stage) (fun _ _ _ hs h => hs.act h)
      (hR _ _ _ _ hP.lawful (hP.fresh _ hn) hx) (.of_last (Stage.last_push_self _ _ _ _) nofun)
      (.act .refl (.started (hP.fresh _ hn) hx))
  | answer ht hx =>
    have hw := hP.waiting _ _ ht
    exact advance_induct (motive := R.Leads P.stage) (fun _ _ _ hs h => hs.act h)
      ((hw.2 _ .refl).2 _ _ hx) (.of_last (Stage.last_push_self _ _ _ _) nofun)
      (.act .refl (.answered hw.1 hx))
  | drift d => exact .drift d .refl

/-- A pool of verified code is orderly wherever its schedule takes it. -/
theorem Upheld.orderly {code : I.Task → Program I Unit} (hR : R.Upheld init code) {P : Pool I}
    (h : P.Reachable code init) : R.Orderly init P := by
  refine h.induct (fun x hx => ?_) (fun P P' _ hP hs => hP.step hR hs)
  constructor
  · exact .start hx
  · intro t p h
    cases h
  · intro t _
    rfl

end Rules

/-! ### Playing a schedule -/

/-- One step of a concrete schedule. A reply answers whatever its thread awaits. -/
inductive Move (I : Interface) where
  | spawn (t : ℕ) (task : I.Task)
  | reply (t : ℕ) (answer : (q : I.Query) → I.Answer q)
  | drift (d : I.Drift)

namespace Pool

def play (code : I.Task → Program I Unit) (P : Pool I) : Move I → Option (Pool I)
  | .spawn t task =>
    match P.threads t, I.launch task P.stage.shared with
    | none, some x => some (P.resume t (code task) (P.stage.push t (.started task) x))
    | _, _ => none
  | .reply t answer =>
    match P.threads t with
    | some (.await q next) =>
      match I.effect t q (answer q) P.stage.shared with
      | some x => some (P.resume t (next (answer q))
          (P.stage.push t (.answered q (answer q)) x))
      | none => none
    | _ => none
  | .drift d => some ⟨P.stage.drift d, P.threads⟩

def plays (code : I.Task → Program I Unit) : Pool I → List (Move I) → Option (Pool I)
  | P, [] => some P
  | P, m :: ms => (P.play code m).bind fun P' => plays code P' ms

variable {code : I.Task → Program I Unit}

theorem step_of_play {P P' : Pool I} {m : Move I} (h : P.play code m = some P') :
    P.Step code P' := by
  cases m with
  | spawn t task =>
    simp only [play] at h
    split at h
    · rename_i hn hx
      exact Option.some.inj h ▸ .spawn hn hx
    · cases h
  | reply t answer =>
    simp only [play] at h
    split at h
    · rename_i q next ht
      split at h
      · rename_i x hx
        exact Option.some.inj h ▸ .answer ht hx
      · cases h
    · cases h
  | drift d => exact Option.some.inj h ▸ .drift d

theorem reachable_of_plays {init : I.State → Prop} {P P' : Pool I} {ms : List (Move I)}
    (hP : P.Reachable code init) (h : P.plays code ms = some P') : P'.Reachable code init := by
  induction ms generalizing P with
  | nil => exact Option.some.inj h ▸ hP
  | cons m ms ih =>
    obtain ⟨P₁, h₁, h₂⟩ := Option.bind_eq_some_iff.mp h
    exact ih (hP.step (step_of_play h₁)) h₂

/-- A schedule whose last pool passes a test. -/
theorem exists_of_plays {init : I.State → Prop} {P : Pool I} {ms : List (Move I)}
    {p : Pool I → Prop} (hP : P.Reachable code init) (h : ∃ P' ∈ P.plays code ms, p P') :
    ∃ P', P'.Reachable code init ∧ p P' := by
  obtain ⟨P', hP', ht⟩ := h
  exact ⟨P', reachable_of_plays hP hP', ht⟩

end Pool

theorem cut_of_getElem? {α : Type} {l : List α} {i : ℕ} {x : α} (h : x ∈ l[i]?) :
    l = l.take i ++ x :: l.drop (i + 1) := by
  obtain ⟨hi, rfl⟩ := List.getElem?_eq_some_iff.mp h
  rw [List.getElem_cons_drop, List.take_append_drop]

theorem cut_two {α : Type} {l : List α} {x y : α} (hx : x ∈ l) (hy : y ∈ l) :
    x = y ∨ (∃ newer older, l = newer ++ x :: older ∧ y ∈ older) ∨
      ∃ newer older, l = newer ++ y :: older ∧ x ∈ older := by
  obtain ⟨newer, older, rfl⟩ := List.append_of_mem hx
  rw [List.mem_append, List.mem_cons] at hy
  rcases hy with hy | rfl | hy
  · obtain ⟨newer', mid, rfl⟩ := List.append_of_mem hy
    refine .inr (.inr ⟨newer', mid ++ x :: older, by simp, by simp⟩)
  · exact .inl rfl
  · exact .inr (.inl ⟨newer, older, rfl, hy⟩)

theorem suffix_of_cut {α : Type} {l newer older : List α} {x : α} (h : l = newer ++ x :: older) :
    older <:+ l := ⟨newer ++ [x], by rw [h, List.append_assoc, List.singleton_append]⟩

theorem Stage.cut_of_last {s : Stage I} {t : ℕ} {act : Act I} (h : s.last t = some act) :
    ∃ newer w older, s.history = newer ++ w :: older ∧ w.tid = t ∧ w.act = act ∧
      ∀ z ∈ newer, z.tid ≠ t := by
  obtain ⟨w, hw, rfl⟩ := Option.map_eq_some_iff.mp h
  obtain ⟨hwt, newer, older, hs, hnew⟩ := List.find?_eq_some_iff_append.mp hw
  exact ⟨newer, w, older, hs, by simpa using hwt, rfl, by simpa using hnew⟩

theorem Rules.Lawful.started_unique {R : Rules I} {init : I.State → Prop} {s : Stage I}
    (h : R.Lawful init s) {x y : Entry I} (hx : x ∈ s.history) (hy : y ∈ s.history)
    (hxy : x.tid = y.tid) {task task' : I.Task} (hxa : x.act = .started task)
    (hya : y.act = .started task') : x = y := by
  rcases cut_two hx hy with heq | ⟨newer, older, hs, hmem⟩ | ⟨newer, older, hs, hmem⟩
  · exact heq
  · exact absurd hxy.symm ((h.started_of_cut hs hxa).2 y hmem)
  · exact absurd hxy ((h.started_of_cut hs hya).2 x hmem)

end Resumption
