import Mathlib.Data.List.Basic
import Mathlib.Logic.Function.Basic
import Mathlib.Order.Basic

/-!
# A process in its pipes

A process that reads one stream and writes two, through pipes with room for only so much.
What it writes is decided by what it is fed, whenever the pipes let it take its steps.
-/

namespace Piping

variable {κ σ : Type}

inductive Output where
  | out
  | err
  deriving DecidableEq, Repr

/-- What a process has still to do. It may act on everything it reads, and the end of its
input is read as `none`. -/
inductive Process (κ σ : Type) where
  | exit (status : κ)
  | read (next : Option σ → Process κ σ)
  | write (output : Output) (item : σ) (next : Process κ σ)

/-- All that is written from here on, and the status at the end. -/
@[ext] structure Transcript (κ σ : Type) where
  printed : Output → List σ
  status : κ

namespace Transcript

def write (t : Transcript κ σ) (o : Output) (item : σ) : Transcript κ σ :=
  { t with printed := Function.update t.printed o (item :: t.printed o) }

/-- Behind what was written before. -/
def after (t : Transcript κ σ) (read : Output → List σ) : Transcript κ σ :=
  { t with printed := fun o => read o ++ t.printed o }

@[simp] theorem printed_after (t : Transcript κ σ) (read : Output → List σ) (o : Output) :
    (t.after read).printed o = read o ++ t.printed o := rfl

theorem after_write (t : Transcript κ σ) (o : Output) (item : σ) (read : Output → List σ) :
    (t.write o item).after read = t.after (Function.update read o (read o ++ [item])) := by
  refine Transcript.ext (funext fun o' => ?_) rfl
  by_cases ho : o' = o
  · subst ho
    simp [after, write]
  · simp [after, write, ho]

end Transcript

namespace Process

/-- What a process writes when this is its input. -/
def transcript : Process κ σ → List σ → Transcript κ σ
  | .exit status, _ => ⟨fun _ => [], status⟩
  | .read next, [] => (next none).transcript []
  | .read next, item :: input => (next (some item)).transcript input
  | .write output item next, input => (next.transcript input).write output item

def steps : Process κ σ → List σ → ℕ
  | .exit _, _ => 1
  | .read next, [] => (next none).steps [] + 1
  | .read next, item :: input => (next (some item)).steps input + 1
  | .write _ _ next, input => next.steps input + 1

/-- With this output going nowhere, where there is always room. -/
def discarding (o : Output) : Process κ σ → Process κ σ
  | .exit status => .exit status
  | .read next => .read fun item => (next item).discarding o
  | .write o' item next => if o' = o then next.discarding o else .write o' item (next.discarding o)

theorem transcript_discarding (o : Output) (p : Process κ σ) (input : List σ) :
    (p.discarding o).transcript input =
      { p.transcript input with printed := Function.update (p.transcript input).printed o [] } := by
  fun_induction transcript p input with
  | case1 status input =>
    refine Transcript.ext (funext fun o' => ?_) rfl
    by_cases ho : o' = o
    · subst ho
      simp [discarding, transcript]
    · simp [discarding, transcript, ho]
  | case2 next ih => exact ih
  | case3 next item input ih => exact ih
  | case4 o₁ item next input ih =>
    rw [discarding]
    split_ifs with ho
    · subst ho
      rw [ih]
      refine Transcript.ext (funext fun o' => ?_) rfl
      by_cases ho' : o' = o₁
      · subst ho'
        simp
      · simp [Transcript.write, ho']
    · rw [transcript, ih]
      refine Transcript.ext (funext fun o' => ?_) rfl
      by_cases ho' : o' = o
      · subst ho'
        simp [Transcript.write, Ne.symm ho]
      · by_cases ho₁ : o' = o₁
        · subst ho₁
          simp [Transcript.write, ho]
        · simp [Transcript.write, ho', ho₁]

end Process

/-! ### Pipes -/

/-- What was written and not read yet, and whether the writing end is closed. -/
structure Pipe (σ : Type) where
  capacity : ℕ
  held : List σ
  ended : Bool
  fits : held.length ≤ capacity

namespace Pipe

def empty (capacity : ℕ) (ended : Bool) : Pipe σ := ⟨capacity, [], ended, Nat.zero_le capacity⟩

def put (p : Pipe σ) (items : List σ) (room : p.held.length + items.length ≤ p.capacity) : Pipe σ :=
  { p with held := p.held ++ items, fits := List.length_append.trans_le room }

def take (p : Pipe σ) (count : ℕ) : Pipe σ :=
  { p with
    held := p.held.drop count
    fits := Nat.le_trans (by rw [List.length_drop]; exact Nat.sub_le ..) p.fits }

def close (p : Pipe σ) : Pipe σ := { p with ended := true }

variable (p : Pipe σ)

@[simp] theorem held_empty (capacity : ℕ) (ended : Bool) :
    (empty capacity ended : Pipe σ).held = [] := rfl

@[simp] theorem held_put (items : List σ) (room : p.held.length + items.length ≤ p.capacity) :
    (p.put items room).held = p.held ++ items := rfl

@[simp] theorem ended_put (items : List σ) (room : p.held.length + items.length ≤ p.capacity) :
    (p.put items room).ended = p.ended := rfl

@[simp] theorem capacity_put (items : List σ) (room : p.held.length + items.length ≤ p.capacity) :
    (p.put items room).capacity = p.capacity := rfl

@[simp] theorem held_take (count : ℕ) : (p.take count).held = p.held.drop count := rfl

@[simp] theorem ended_take (count : ℕ) : (p.take count).ended = p.ended := rfl

@[simp] theorem capacity_take (count : ℕ) : (p.take count).capacity = p.capacity := rfl

@[simp] theorem held_close : p.close.held = p.held := rfl

@[simp] theorem ended_close : p.close.ended = true := rfl

@[simp] theorem capacity_close : p.close.capacity = p.capacity := rfl

end Pipe

/-- Whether a read can give this many items now: some that are there, or none at the end. -/
def Pipe.MayRead (p : Pipe σ) (count : ℕ) : Prop :=
  0 < count ∧ count ≤ p.held.length ∨ count = 0 ∧ p.held = [] ∧ p.ended = true

/-! ### The process at its end of the pipes -/

inductive Child (κ σ : Type) where
  | running (process : Process κ σ)
  | exited (status : κ)

def Child.process : Child κ σ → Process κ σ
  | .running process => process
  | .exited status => .exit status

structure Piped (κ σ : Type) where
  stdin : Pipe σ
  output : Output → Pipe σ
  child : Child κ σ

inductive ChildStep : Piped κ σ → Piped κ σ → Prop
  | exit (s : Piped κ σ) (status : κ) (hchild : s.child = .running (.exit status)) :
      ChildStep s { s with output := fun o => (s.output o).close, child := .exited status }
  | read (s : Piped κ σ) (next : Option σ → Process κ σ) (item : σ) (rest : List σ)
      (hchild : s.child = .running (.read next)) (hheld : s.stdin.held = item :: rest) :
      ChildStep s { s with stdin := s.stdin.take 1, child := .running (next (some item)) }
  | ended (s : Piped κ σ) (next : Option σ → Process κ σ)
      (hchild : s.child = .running (.read next)) (hheld : s.stdin.held = [])
      (hended : s.stdin.ended = true) :
      ChildStep s { s with child := .running (next none) }
  | write (s : Piped κ σ) (o : Output) (item : σ) (next : Process κ σ)
      (hchild : s.child = .running (.write o item next))
      (room : (s.output o).held.length + [item].length ≤ (s.output o).capacity) :
      ChildStep s { s with
        output := Function.update s.output o ((s.output o).put [item] room)
        child := .running next }

namespace Piped

def held (s : Piped κ σ) (o : Output) : List σ := (s.output o).held

/-- All that its readers have still to read, when `later` is what is still to be fed. -/
def unread (s : Piped κ σ) (later : List σ) : Transcript κ σ :=
  (s.child.process.transcript (s.stdin.held ++ later)).after s.held

def steps (s : Piped κ σ) (later : List σ) : ℕ :=
  match s.child with
  | .running process => process.steps (s.stdin.held ++ later)
  | .exited _ => 0

/-- The outputs are at their end once the child has exited, and no earlier. -/
def Closed (s : Piped κ σ) : Prop :=
  match s.child with
  | .running _ => ∀ o, (s.output o).ended = false
  | .exited _ => ∀ o, (s.output o).ended = true

/-! What the other ends of the pipes do. -/

def feed (s : Piped κ σ) (items : List σ)
    (room : s.stdin.held.length + items.length ≤ s.stdin.capacity) : Piped κ σ :=
  { s with stdin := s.stdin.put items room }

def closeInput (s : Piped κ σ) : Piped κ σ := { s with stdin := s.stdin.close }

def take (s : Piped κ σ) (o : Output) (count : ℕ) : Piped κ σ :=
  { s with output := Function.update s.output o ((s.output o).take count) }

variable (s : Piped κ σ) (later : List σ)

theorem unread_feed (items : List σ)
    (room : s.stdin.held.length + items.length ≤ s.stdin.capacity) :
    (s.feed items room).unread later = s.unread (items ++ later) := by
  show ((s.child.process.transcript ((s.stdin.held ++ items) ++ later)).after s.held) = _
  rw [List.append_assoc, unread]

theorem steps_feed (items : List σ)
    (room : s.stdin.held.length + items.length ≤ s.stdin.capacity) :
    (s.feed items room).steps later = s.steps (items ++ later) := by
  simp [steps, feed]

@[simp] theorem unread_closeInput : s.closeInput.unread later = s.unread later := rfl

@[simp] theorem steps_closeInput : s.closeInput.steps later = s.steps later := rfl

@[simp] theorem steps_take (o : Output) (count : ℕ) :
    (s.take o count).steps later = s.steps later := rfl

@[simp] theorem ended_take (o : Output) (count : ℕ) (o' : Output) :
    ((s.take o count).output o').ended = (s.output o').ended := by
  by_cases ho : o' = o
  · subst ho
    simp [take]
  · simp [take, ho]

@[simp] theorem capacity_take (o : Output) (count : ℕ) (o' : Output) :
    ((s.take o count).output o').capacity = (s.output o').capacity := by
  by_cases ho : o' = o
  · subst ho
    simp [take]
  · simp [take, ho]

@[simp] theorem held_take_self (o : Output) (count : ℕ) :
    (s.take o count).held o = (s.held o).drop count := by
  simp [take, held]

theorem held_take_of_ne {o o' : Output} (h : o' ≠ o) (count : ℕ) :
    (s.take o count).held o' = s.held o' := by
  simp [take, held, h]

theorem unread_take_self (o : Output) (count : ℕ) :
    (s.held o).take count ++ ((s.take o count).unread later).printed o =
      (s.unread later).printed o := by
  show (s.held o).take count ++ ((s.take o count).held o ++ _) = s.held o ++ _
  rw [held_take_self, ← List.append_assoc, List.take_append_drop]
  rfl

theorem unread_take_of_ne {o o' : Output} (h : o' ≠ o) (count : ℕ) :
    ((s.take o count).unread later).printed o' = (s.unread later).printed o' := by
  show (s.take o count).held o' ++ _ = s.held o' ++ _
  rw [held_take_of_ne s h]
  rfl

theorem closed_take (o : Output) (count : ℕ) : (s.take o count).Closed ↔ s.Closed := by
  have hchild : (s.take o count).child = s.child := rfl
  simp only [Closed, hchild, ended_take]

theorem held_le_unread (o : Output) :
    (s.held o).length ≤ ((s.unread later).printed o).length := by
  simp [unread]

theorem unread_of_exited {status : κ} (h : s.child = .exited status) :
    s.unread later = ⟨s.held, status⟩ := by
  simp [unread, h, Child.process, Process.transcript, Transcript.after]

theorem Closed.exited {s : Piped κ σ} (h : s.Closed) {o : Output}
    (hended : (s.output o).ended = true) : ∃ status, s.child = .exited status := by
  cases hchild : s.child with
  | running process =>
    rw [Closed, hchild] at h
    exact absurd ((h o).symm.trans hended) Bool.false_ne_true
  | exited status => exact ⟨status, rfl⟩

theorem Closed.ended_of_exited {s : Piped κ σ} (h : s.Closed) {status : κ}
    (hchild : s.child = .exited status) (o : Output) : (s.output o).ended = true := by
  rw [Closed, hchild] at h
  exact h o

end Piped

namespace ChildStep

variable {s t : Piped κ σ} {later : List σ}

/-- What is to be read in all does not depend on when the child takes its steps. -/
theorem unread_eq (h : ChildStep s t) (hlater : s.stdin.ended = true → later = []) :
    t.unread later = s.unread later := by
  cases h with
  | exit status hchild =>
    simp [Piped.unread, Piped.held, hchild, Child.process, Process.transcript, Transcript.after]
  | read next item rest hchild hheld =>
    simp [Piped.unread, Piped.held, hchild, Child.process, Process.transcript, hheld,
      Transcript.after]
  | ended next hchild hheld hended =>
    simp [Piped.unread, Piped.held, hchild, Child.process, Process.transcript, hheld,
      hlater hended, Transcript.after]
  | write o item next hchild room =>
    rw [Piped.unread, Piped.unread, hchild, Child.process, Child.process, Process.transcript,
      Transcript.after_write]
    refine congrArg _ (funext fun o' => ?_)
    by_cases ho : o' = o
    · subst ho
      simp [Piped.held]
    · simp [Piped.held, ho]

theorem steps_eq (h : ChildStep s t) (hlater : s.stdin.ended = true → later = []) :
    t.steps later + 1 = s.steps later := by
  cases h with
  | exit status hchild => simp [Piped.steps, hchild, Process.steps]
  | read next item rest hchild hheld => simp [Piped.steps, hchild, Process.steps, hheld]
  | ended next hchild hheld hended =>
    simp [Piped.steps, hchild, Process.steps, hheld, hlater hended]
  | write o item next hchild room => simp [Piped.steps, hchild, Process.steps]

theorem closed (h : ChildStep s t) (hclosed : s.Closed) : t.Closed := by
  cases h with
  | exit status hchild => exact fun o => rfl
  | read next item rest hchild hheld => simpa [Piped.Closed, hchild] using hclosed
  | ended next hchild hheld hended => simpa [Piped.Closed, hchild] using hclosed
  | write o item next hchild room =>
    rw [Piped.Closed, hchild] at hclosed
    intro o'
    by_cases ho : o' = o
    · subst ho
      simpa using hclosed o'
    · simpa [ho] using hclosed o'

theorem open_of_closed (h : ChildStep s t) (hclosed : s.Closed) (o : Output) :
    (s.output o).ended = false := by
  have hrunning : ∃ process, s.child = .running process := by
    cases h <;> exact ⟨_, ‹_›⟩
  obtain ⟨process, hchild⟩ := hrunning
  rw [Piped.Closed, hchild] at hclosed
  exact hclosed o

theorem stdin_ended (h : ChildStep s t) : t.stdin.ended = s.stdin.ended := by
  cases h <;> rfl

theorem stdin_capacity (h : ChildStep s t) : t.stdin.capacity = s.stdin.capacity := by
  cases h <;> rfl

theorem output_capacity (h : ChildStep s t) (o : Output) :
    (t.output o).capacity = (s.output o).capacity := by
  cases h with
  | write o' item next hchild room =>
    by_cases ho : o = o'
    · subst ho
      simp
    · simp [ho]
  | _ => rfl

theorem stdin_length_le (h : ChildStep s t) : t.stdin.held.length ≤ s.stdin.held.length := by
  cases h with
  | read next item rest hchild hheld => simp
  | _ => exact Nat.le_refl _

/-- A running child takes a step, unless it is held up by an output that is full. -/
theorem exists_or_blocked (later : List σ) {process : Process κ σ}
    (hchild : s.child = .running process) (hinput : s.stdin.held ≠ [] ∨ s.stdin.ended = true) :
    (∃ t, ChildStep s t) ∨
      ∃ o, (s.held o).length = (s.output o).capacity ∧
        (s.output o).capacity < ((s.unread later).printed o).length := by
  cases process with
  | exit status => exact .inl ⟨_, .exit s status hchild⟩
  | read next =>
    cases hheld : s.stdin.held with
    | nil =>
      have hended : s.stdin.ended = true := hinput.resolve_left (absurd hheld)
      exact .inl ⟨_, .ended s next hchild hheld hended⟩
    | cons item rest => exact .inl ⟨_, .read s next item rest hchild hheld⟩
  | write o item next =>
    rcases Nat.lt_or_eq_of_le (s.output o).fits with hroom | hfull
    · exact .inl ⟨_, .write s o item next hchild hroom⟩
    · refine .inr ⟨o, hfull, ?_⟩
      simp [Piped.unread, Piped.held, hchild, Child.process, Process.transcript, Transcript.write,
        hfull]

end ChildStep

end Piping
