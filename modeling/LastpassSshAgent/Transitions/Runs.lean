import Mathlib.Data.List.Range

/-!
# Runs of a labelled transition system

A run is a sequence of acts. Whatever holds at the start and is kept by each step holds
after every run, of the acts so far and the state they led to.
-/

namespace Transitions

variable {State Act : Type} {step : State → Act → State → Prop}

/-- From `s`, by these acts, in order. -/
inductive Runs (step : State → Act → State → Prop) (s : State) : List Act → State → Prop
  | start : Runs step s [] s
  | step {acts : List Act} {a : Act} {t u : State} (h : Runs step s acts t)
      (hstep : step t a u) : Runs step s (acts ++ [a]) u

variable {s t u : State} {acts front back : List Act} {a : Act}

theorem Runs.invariant (P : List Act → State → Prop) (h : Runs step s acts t) (hstart : P [] s)
    (hstep : ∀ acts t a u, P acts t → step t a u → P (acts ++ [a]) u) : P acts t := by
  induction h with
  | start => exact hstart
  | step h hstep' ih => exact hstep _ _ _ _ ih hstep'

theorem Runs.mono {step' : State → Act → State → Prop} (h : Runs step s acts t)
    (hstep : ∀ s a t, step s a t → step' s a t) : Runs step' s acts t := by
  induction h with
  | start => exact .start
  | step _ hact ih => exact ih.step (hstep _ _ _ hact)

theorem Runs.trans (h : Runs step s front t) (h' : Runs step t back u) :
    Runs step s (front ++ back) u := by
  induction h' with
  | start => rwa [List.append_nil]
  | step _ hstep ih =>
    rw [← List.append_assoc]
    exact ih.step hstep

theorem Runs.split (h : Runs step s acts t) {front back : List Act} (hacts : acts = front ++ back) :
    ∃ m, Runs step s front m ∧ Runs step m back t := by
  induction h generalizing back with
  | start =>
    obtain ⟨rfl, rfl⟩ := List.append_eq_nil_iff.mp hacts.symm
    exact ⟨s, .start, .start⟩
  | @step acts a t u h hstep ih =>
    rcases List.eq_nil_or_concat back with rfl | ⟨back, b, rfl⟩
    · rw [List.append_nil] at hacts
      subst hacts
      exact ⟨u, .step h hstep, .start⟩
    · rw [List.concat_eq_append, ← List.append_assoc] at hacts
      obtain ⟨rfl, hlast⟩ := List.append_inj' hacts rfl
      obtain rfl := (List.cons.inj hlast).1
      obtain ⟨m, hfront, hback⟩ := ih rfl
      exact ⟨m, hfront, List.concat_eq_append ▸ .step hback hstep⟩

theorem Runs.eq_of_nil (h : Runs step s acts t) (hacts : acts = []) : s = t := by
  cases h with
  | start => rfl
  | step _ _ => exact absurd hacts (by simp)

theorem Runs.head (h : Runs step s acts u) {back : List Act} (hacts : acts = a :: back) :
    ∃ t, step s a t ∧ Runs step t back u := by
  obtain ⟨t, hone, hback⟩ := h.split (show acts = [a] ++ back from hacts)
  refine ⟨t, ?_, hback⟩
  generalize hsingle : [a] = one at hone
  cases hone with
  | start => cases hsingle
  | @step acts b m _ h hstep =>
    obtain ⟨rfl, hlast⟩ := List.append_inj' (show [] ++ [a] = acts ++ [b] from hsingle) rfl
    obtain rfl := (List.cons.inj hlast).1
    exact h.eq_of_nil rfl ▸ hstep

theorem Runs.at (h : Runs step s acts u) (hacts : acts = front ++ a :: back) :
    ∃ m t, Runs step s front m ∧ step m a t ∧ Runs step t back u := by
  obtain ⟨m, hfront, hrest⟩ := h.split hacts
  obtain ⟨t, hstep, hback⟩ := hrest.head rfl
  exact ⟨m, t, hfront, hstep, hback⟩

/-- What simulates each step, in the states that can be reached, simulates every run. -/
theorem Runs.refines {State' : Type} {step' : State' → Act → State' → Prop} (f : State → State')
    (P : State → Prop) (h : Runs step s acts t) (hstart : P s)
    (hkeep : ∀ t a u, P t → step t a u → P u)
    (hstep : ∀ t a u, P t → step t a u → step' (f t) a (f u)) :
    Runs step' (f s) acts (f t) := by
  have hreached : P t ∧ Runs step' (f s) acts (f t) := by
    induction h with
    | start => exact ⟨hstart, .start⟩
    | step _ hact ih => exact ⟨hkeep _ _ _ ih.1 hact, ih.2.step (hstep _ _ _ ih.1 hact)⟩
  exact hreached.2

/-! ### Registers -/

/-- Some acts put a value in the register, and the others leave it. -/
def Register {Value : Type} (puts : Act → Option Value) (v : Value) (a : Act) (v' : Value) : Prop :=
  v' = (puts a).getD v

/-- A register holds what was put there last. -/
theorem Register.holds {Value : Type} {puts : Act → Option Value} {v v' : Value}
    (h : Runs (Register puts) v acts v') : v' = ((acts.filterMap puts).getLast?).getD v := by
  induction h with
  | start => rfl
  | @step acts a t u _ hact ih =>
    rw [hact, ih, List.filterMap_append]
    cases hput : puts a with
    | none => simp [hput]
    | some put => simp [hput]

/-! ### Runs without an end -/

/-- A run that goes on for ever. -/
structure Endless (step : State → Act → State → Prop) (s : State) (states : ℕ → State)
    (acts : ℕ → Act) : Prop where
  start : states 0 = s
  step (n : ℕ) : step (states n) (acts n) (states (n + 1))

theorem Endless.runs {states : ℕ → State} {acts : ℕ → Act} (h : Endless step s states acts)
    (n : ℕ) : Runs step s ((List.range n).map acts) (states n) := by
  induction n with
  | zero => exact h.start ▸ .start
  | succ n ih =>
    rw [List.range_succ, List.map_append]
    exact ih.step (h.step n)

end Transitions
