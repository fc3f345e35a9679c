import LastpassSshAgent.Resumption.Pool
import LastpassSshAgent.Resumption.Traces
import Mathlib.Data.DFinsupp.WellFounded

/-!
# Pools that are answered until nothing waits

In a pool a thread does what a trace of its program says, as far as it has come. Programs
have no infinite paths, so a pool of finitely many threads can be answered so often only,
however the answers are chosen and whatever drifts in between.
-/

namespace Resumption

variable {I : Interface} {α : Type}

namespace Program

/-! ### What is left of a program -/

/-- `p` can do just `acts`, oldest first, and have `p'` left. -/
inductive Leaves : Program I α → List (Act I) → Program I α → Prop
  | refl (p : Program I α) : Leaves p [] p
  | read {next : I.State → Program I α} {acts : List (Act I)} {p : Program I α} (x : I.State)
      (h : Leaves (next x) acts p) : Leaves (.read next) acts p
  | emit {e : I.Event} {next : Program I α} {acts : List (Act I)} {p : Program I α}
      (h : Leaves next acts p) : Leaves (.emit e next) (.noted e :: acts) p
  | await {q : I.Query} {next : I.Answer q → Program I α} {acts : List (Act I)}
      {p : Program I α} (r : I.Answer q) (h : Leaves (next r) acts p) :
      Leaves (.await q next) (.began q :: .answered q r :: acts) p

variable {p p' p'' : Program I α} {acts acts' : List (Act I)} {a : α}

theorem Leaves.trans (h : p.Leaves acts p') (h' : p'.Leaves acts' p'') :
    p.Leaves (acts ++ acts') p'' := by
  induction h with
  | refl p => exact h'
  | read x _ ih => exact .read x (ih h')
  | emit _ ih => exact .emit (ih h')
  | await r _ ih => exact .await r (ih h')

theorem Leaves.traces (h : p.Leaves acts p') (h' : p'.Traces acts' a) :
    p.Traces (acts ++ acts') a := by
  induction h with
  | refl p => exact h'
  | read x _ ih => exact .read x (ih h')
  | emit _ ih => exact .emit (ih h')
  | await r _ ih => exact .await r (ih h')

theorem Leaves.traces_done (h : p.Leaves acts (.done a)) : p.Traces acts a := by
  simpa using h.traces (.done a)

theorem Leaves.not_started (h : p.Leaves acts p') (task : I.Task) : .started task ∉ acts := by
  induction h with
  | refl p => simp
  | read x _ ih => exact ih
  | emit _ ih => simpa using ih
  | await r _ ih => simpa using ih

/-! ### No infinite paths -/

inductive Next : Program I α → Program I α → Prop
  | read (next : I.State → Program I α) (x : I.State) : Next (next x) (.read next)
  | emit (e : I.Event) (next : Program I α) : Next next (.emit e next)
  | await (q : I.Query) (next : I.Answer q → Program I α) (r : I.Answer q) :
      Next (next r) (.await q next)

theorem wellFounded_next : WellFounded (Next (I := I) (α := α)) := by
  refine ⟨fun p => ?_⟩
  induction p with
  | done a => exact ⟨_, fun _ h => by cases h⟩
  | read next ih => exact ⟨_, fun _ h => by cases h; exact ih _⟩
  | emit e next ih => exact ⟨_, fun _ h => by cases h; exact ih⟩
  | await q next ih => exact ⟨_, fun _ h => by cases h; exact ih _⟩

abbrev Within : Program I α → Program I α → Prop := Relation.TransGen Next

theorem Leaves.within (h : p.Leaves acts p') : p = p' ∨ p'.Within p := by
  induction h with
  | refl p => exact .inl rfl
  | read x _ ih =>
    exact .inr (ih.elim (fun h => h ▸ .single (.read _ x)) fun h => h.tail (.read _ x))
  | emit _ ih =>
    exact .inr (ih.elim (fun h => h ▸ .single (.emit _ _)) fun h => h.tail (.emit _ _))
  | await r _ ih =>
    exact .inr (ih.elim (fun h => h ▸ .single (.await _ _ r)) fun h => h.tail (.await _ _ r))

end Program

/-! ### Threads in a pool -/

namespace Program

def restsOn : Program I Unit → Option (Act I)
  | .done _ => some .ended
  | .await q _ => some (.began q)
  | _ => none

end Program

theorem leaves_advance (t : ℕ) (p : Program I Unit) (s : Stage I) :
    ∃ acts act, p.Leaves acts (advance t p s).1 ∧ (advance t p s).1.restsOn = some act ∧
      (advance t p s).2.acts t = act :: (acts.reverse ++ s.acts t) := by
  induction p generalizing s with
  | done a => exact ⟨[], .ended, .refl _, rfl, s.acts_push_self t .ended s.shared⟩
  | read next ih =>
    obtain ⟨acts, act, hleaves, hrests, hacts⟩ := ih s.shared s
    exact ⟨acts, act, .read _ hleaves, hrests, hacts⟩
  | emit e next ih =>
    obtain ⟨acts, act, hleaves, hrests, hacts⟩ := ih (s.note t e)
    refine ⟨_, act, .emit hleaves, hrests, hacts.trans ?_⟩
    rw [Stage.note, Stage.acts_push_self, List.reverse_cons, List.append_assoc]
    rfl
  | await q next ih => exact ⟨[], .began q, .refl _, rfl, s.acts_push_self t (.began q) s.shared⟩

theorem acts_advance_of_ne {t u : ℕ} (h : u ≠ t) (p : Program I Unit) (s : Stage I) :
    (advance t p s).2.acts u = s.acts u := by
  induction p generalizing s with
  | done a => exact s.acts_push_of_ne h.symm .ended s.shared
  | read next ih => exact ih s.shared s
  | emit e next ih => exact (ih (s.note t e)).trans (s.acts_push_of_ne h.symm _ _)
  | await q next ih => exact s.acts_push_of_ne h.symm (.began q) s.shared

namespace Pool

variable {code : I.Task → Program I Unit} {init : I.State → Prop} {P P' : Pool I} {t : ℕ}

/-- How far the thread has come with its task. -/
structure ThreadTraced (code : I.Task → Program I Unit) (P : Pool I) (t : ℕ)
    (p : Program I Unit) (task : I.Task) (acts : List (Act I)) (act : Act I) : Prop where
  leaves : (code task).Leaves acts p
  rests : p.restsOn = some act
  acts : P.stage.acts t = act :: (acts.reverse ++ [.started task])

structure Traced (code : I.Task → Program I Unit) (P : Pool I) : Prop where
  threads : ∀ t p, P.threads t = some p → ∃ task acts act, ThreadTraced code P t p task acts act
  none : ∀ t, P.threads t = none → P.stage.acts t = []

theorem threads_resume_self (p : Program I Unit) (s : Stage I) :
    (P.resume t p s).threads t = some (advance t p s).1 := Function.update_self _ _ _

theorem threads_resume_of_ne {u : ℕ} (h : u ≠ t) (p : Program I Unit) (s : Stage I) :
    (P.resume t p s).threads u = P.threads u := Function.update_of_ne h _ _

theorem Traced.resume (h : P.Traced code) {p : Program I Unit} {s : Stage I} {act : Act I}
    {x : I.State} (hs : s = P.stage.push t act x) {task : I.Task} {acts : List (Act I)}
    (hleaves : (code task).Leaves acts p)
    (hacts : s.acts t = acts.reverse ++ [.started task]) : (P.resume t p s).Traced code where
  threads u p' hp' := by
    by_cases hu : u = t
    · subst hu
      rw [threads_resume_self] at hp'
      obtain rfl := Option.some.inj hp'
      obtain ⟨more, act, hmore, hrests, hafter⟩ := leaves_advance u p s
      refine ⟨task, acts ++ more, act, hleaves.trans hmore, hrests, hafter.trans ?_⟩
      rw [hacts, List.reverse_append, List.append_assoc]
    · rw [threads_resume_of_ne hu] at hp'
      obtain ⟨task, acts, act, hthread⟩ := h.threads u p' hp'
      refine ⟨task, acts, act, hthread.leaves, hthread.rests, .trans ?_ hthread.acts⟩
      exact (acts_advance_of_ne hu p s).trans (hs ▸ P.stage.acts_push_of_ne (Ne.symm hu) _ _)
  none u hnone := by
    have hu : u ≠ t := by
      rintro rfl
      rw [threads_resume_self] at hnone
      cases hnone
    rw [threads_resume_of_ne hu] at hnone
    exact ((acts_advance_of_ne hu p s).trans
      (hs ▸ P.stage.acts_push_of_ne (Ne.symm hu) _ _)).trans (h.none u hnone)

theorem Traced.step (h : P.Traced code) (hstep : P.Step code P') : P'.Traced code := by
  cases hstep with
  | @spawn t task x hn hx =>
    refine h.resume rfl (.refl _) ?_
    rw [Stage.acts_push_self, h.none t hn]
    rfl
  | @answer t q next a x ht hx =>
    obtain ⟨task, acts, act, hthread⟩ := h.threads t _ ht
    refine h.resume rfl (hthread.leaves.trans (.await a (.refl _))) ?_
    obtain rfl := Option.some.inj hthread.rests
    rw [Stage.acts_push_self, hthread.acts, List.reverse_append]
    rfl
  | drift d =>
    refine ⟨fun t p hp => ?_, h.none⟩
    obtain ⟨task, acts, act, hthread⟩ := h.threads t p hp
    exact ⟨task, acts, act, hthread.leaves, hthread.rests, hthread.acts⟩

theorem Reachable.traced (h : P.Reachable code init) : P.Traced code :=
  h.induct (fun _ _ => ⟨nofun, fun _ _ => rfl⟩) fun _ _ _ hP hstep => hP.step hstep

/-! ### Answering -/

/-- One waiting thread is answered, and nothing else happens. -/
inductive Answers (P : Pool I) : Pool I → Prop
  | answer {t : ℕ} {q : I.Query} {next : I.Answer q → Program I Unit} {a : I.Answer q}
      {x : I.State} (ht : P.threads t = some (.await q next))
      (hx : I.effect t q a P.stage.shared = some x) :
      P.Answers (P.resume t (next a) (P.stage.push t (.answered q a) x))

/-- The same, after any drift. -/
def Goes (P P' : Pool I) : Prop :=
  ∃ drifts : List I.Drift, Answers ⟨drifts.foldl Stage.drift P.stage, P.threads⟩ P'

theorem Answers.step (h : P.Answers P') : P.Step code P' := by
  cases h with
  | answer ht hx => exact .answer ht hx

theorem Reachable.drifted (h : P.Reachable code init) (drifts : List I.Drift) :
    Reachable code init ⟨drifts.foldl Stage.drift P.stage, P.threads⟩ := by
  induction drifts generalizing P with
  | nil => exact h
  | cons d drifts ih => exact ih (h.step (.drift d))

theorem Reachable.goes (h : P.Reachable code init) (hgoes : P.Goes P') : P'.Reachable code init := by
  obtain ⟨drifts, hanswers⟩ := hgoes
  exact (h.drifted drifts).step hanswers.step

theorem Goes.less (h : P.Goes P') : ∃ t p p', P.threads t = some p ∧ P'.threads t = some p' ∧
    p'.Within p ∧ ∀ u, u ≠ t → P'.threads u = P.threads u := by
  obtain ⟨drifts, hanswers⟩ := h
  cases hanswers with
  | @answer t q next a x ht hx =>
    refine ⟨t, _, _, ht, threads_resume_self _ _, ?_, fun u hu => threads_resume_of_ne hu _ _⟩
    obtain ⟨acts, act, hleaves, -⟩ := leaves_advance t (next a)
      ((drifts.foldl Stage.drift P.stage).push t (.answered q a) x)
    rcases hleaves.within with heq | hwithin
    · exact heq ▸ .single (.await q next a)
    · exact hwithin.tail (.await q next a)

def tids (P : Pool I) : Set ℕ := {t | P.threads t ≠ none}

theorem Goes.tids_eq (h : P.Goes P') : P'.tids = P.tids := by
  obtain ⟨t, p, p', hp, hp', -, hothers⟩ := h.less
  ext u
  by_cases hu : u = t
  · simp [tids, hu, hp, hp']
  · simp [tids, hothers u hu]

theorem Reachable.finite_tids (h : P.Reachable code init) : P.tids.Finite := by
  refine h.induct (motive := fun P => P.tids.Finite) (fun x _ => ?_) fun P P' _ hP hstep => ?_
  · exact Set.finite_empty.subset fun t ht => ht rfl
  · cases hstep with
    | @spawn t task x hn hx =>
      refine (hP.insert t).subset fun u hu => ?_
      by_cases hut : u = t
      · exact .inl hut
      · exact .inr fun hnone => hu ((threads_resume_of_ne hut _ _).trans hnone)
    | @answer t q next a x ht hx =>
      refine hP.subset fun u hu hnone => ?_
      have hut : u ≠ t := by
        rintro rfl
        rw [ht] at hnone
        cases hnone
      exact hu ((threads_resume_of_ne hut _ _).trans hnone)
    | drift d => exact hP

/-- Finitely many threads cannot be answered for ever. -/
theorem acc_goes (h : P.tids.Finite) : Acc (fun P' P : Pool I => P.Goes P') P := by
  have hfinite : Finite P.tids := h
  have hwf : WellFounded (Pi.Lex (· < ·)
      (fun {_ : P.tids} => Program.Within (I := I) (α := Unit))) :=
    Pi.Lex.wellFounded _ fun _ => Program.wellFounded_next.transGen
  suffices hacc : ∀ f : P.tids → Program I Unit, ∀ P' : Pool I, P'.tids = P.tids →
      (∀ t : P.tids, P'.threads t = some (f t)) → Acc (fun P' P : Pool I => P.Goes P') P' by
    have hsome : ∀ t : P.tids, ∃ p, P.threads t = some p := fun t =>
      Option.ne_none_iff_exists'.mp t.2
    choose f hf using hsome
    exact hacc f P rfl hf
  intro f
  induction f using hwf.induction with
  | _ f ih =>
    intro P' htids hf
    refine ⟨_, fun P'' hgoes => ?_⟩
    obtain ⟨t, p, p', hp, hp', hwithin, hothers⟩ := hgoes.less
    have ht : t ∈ P.tids := htids ▸ (by simp [tids, hp] : t ∈ P'.tids)
    have hfp : f ⟨t, ht⟩ = p := Option.some.inj ((hf ⟨t, ht⟩).symm.trans hp)
    refine ih (Function.update f ⟨t, ht⟩ p') ⟨⟨t, ht⟩, fun u hu => ?_, ?_⟩ P''
      (hgoes.tids_eq.trans htids) fun u => ?_
    · exact Function.update_of_ne hu.ne _ _
    · rw [Function.update_self, hfp]
      exact hwithin
    · by_cases hut : u = ⟨t, ht⟩
      · rw [hut, Function.update_self]
        exact hp'
      · rw [Function.update_of_ne hut, hothers u fun heq => hut (Subtype.ext heq)]
        exact hf u

/-- From anywhere a pool can be answered until nothing waits that can be answered. -/
theorem Reachable.settles (h : P.Reachable code init) :
    ∃ P', Relation.ReflTransGen Goes P P' ∧ ∀ P'', ¬P'.Goes P'' := by
  have hacc := acc_goes h.finite_tids
  induction hacc with
  | intro P _ ih =>
    by_cases hgoes : ∃ P', P.Goes P'
    · obtain ⟨P₁, hfirst⟩ := hgoes
      obtain ⟨P', hrest, hend⟩ := ih P₁ hfirst (h.goes hfirst)
      exact ⟨P', .head hfirst hrest, hend⟩
    · exact ⟨P, .refl, fun P' hP' => hgoes ⟨P', hP'⟩⟩

/-- However the answers are chosen, there comes one after which none can be given. -/
theorem Reachable.drains (h : P.Reachable code init) (pools : ℕ → Pool I) (hstart : pools 0 = P) :
    ¬∀ n, (pools n).Goes (pools (n + 1)) := by
  intro hgoes
  have hacc := acc_goes h.finite_tids
  have hnone : ∀ n, ¬Acc (fun P' P : Pool I => P.Goes P') (pools n) := by
    intro n hn
    generalize hP : pools n = P' at hn
    induction hn generalizing n with
    | intro P' _ ih => exact ih (pools (n + 1)) (hP ▸ hgoes n) (n + 1) rfl
  exact hnone 0 (hstart ▸ hacc)

end Pool

end Resumption
