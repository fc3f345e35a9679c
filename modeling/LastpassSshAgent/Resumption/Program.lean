import Mathlib.Data.Nat.Notation
import Mathlib.Logic.Relation

/-!
# Resumptions: programs that pause at their awaits

A program reads the shared state, emits events and awaits answers. An event is
the name of one atomic change of the shared state, so everything a program does
to the state between two awaits is on record. Nothing here fixes what the state,
the events or the queries are: an `Interface` supplies them.
-/

namespace Resumption

/-- What programs run against: the shared state, the events that change it, and
the queries the environment answers. `effect` is what completing a query does to
the state, when it can complete at all; `drift` is what the environment does
unasked. -/
structure Interface where
  State : Type
  Event : Type
  Query : Type
  Answer : Query → Type
  Task : Type
  Drift : Type
  apply : Event → State → State
  effect : ℕ → (q : Query) → Answer q → State → Option State
  launch : Task → State → Option State
  drift : Drift → State → State

inductive Program (I : Interface) (α : Type) : Type where
  | done (a : α)
  | read (next : I.State → Program I α)
  | emit (e : I.Event) (next : Program I α)
  | await (q : I.Query) (next : I.Answer q → Program I α)

variable {I : Interface} {α β γ : Type}

namespace Program

def bind : Program I α → (α → Program I β) → Program I β
  | .done a, f => f a
  | .read next, f => .read fun x => (next x).bind f
  | .emit e next, f => .emit e (next.bind f)
  | .await q next, f => .await q fun a => (next a).bind f

instance : Monad (Program I) where
  pure := .done
  bind := bind

@[simp] theorem pure_def (a : α) : (pure a : Program I α) = .done a := rfl

@[simp] theorem bind_def (p : Program I α) (f : α → Program I β) : (p >>= f) = p.bind f := rfl

theorem bind_bind (p : Program I α) (f : α → Program I β) (g : β → Program I γ) :
    (p.bind f).bind g = p.bind fun a => (f a).bind g := by
  induction p with
  | done a => rfl
  | read next ih => exact congrArg Program.read (funext fun x => ih x)
  | emit e next ih => exact congrArg (Program.emit e) ih
  | await q next ih => exact congrArg (Program.await q) (funext fun a => ih a)

theorem bind_done (p : Program I α) : p.bind .done = p := by
  induction p with
  | done a => rfl
  | read next ih => exact congrArg Program.read (funext fun x => ih x)
  | emit e next ih => exact congrArg (Program.emit e) ih
  | await q next ih => exact congrArg (Program.await q) (funext fun a => ih a)

def get : Program I I.State := .read .done

def tell (e : I.Event) : Program I Unit := .emit e (.done ())

def ask (q : I.Query) : Program I (I.Answer q) := .await q .done

end Program

/-- What a history records of one step. -/
inductive Act (I : Interface) where
  | started (task : I.Task)
  | began (q : I.Query)
  | answered (q : I.Query) (a : I.Answer q)
  | noted (e : I.Event)
  | ended

structure Entry (I : Interface) where
  tid : ℕ
  act : Act I
  before : I.State
  after : I.State

namespace Program

/-- Every act of every run of `p` is one of `A`. -/
def Emits (A : Act I → Prop) : Program I α → Prop
  | .done _ => True
  | .read next => ∀ x, (next x).Emits A
  | .emit e next => A (.noted e) ∧ next.Emits A
  | .await q next => A (.began q) ∧ ∀ a, A (.answered q a) ∧ (next a).Emits A

theorem Emits.and {A B : Act I → Prop} {p : Program I α} (h : p.Emits A) (h' : p.Emits B) :
    p.Emits fun act => A act ∧ B act := by
  induction p with
  | done a => trivial
  | read next ih => exact fun x => ih x (h x) (h' x)
  | emit e next ih => exact ⟨⟨h.1, h'.1⟩, ih h.2 h'.2⟩
  | await q next ih =>
    exact ⟨⟨h.1, h'.1⟩, fun a => ⟨⟨(h.2 a).1, (h'.2 a).1⟩, ih a (h.2 a).2 (h'.2 a).2⟩⟩

theorem Emits.bind {A : Act I → Prop} {p : Program I α} {f : α → Program I β} (hp : p.Emits A)
    (hf : ∀ a, (f a).Emits A) : (p >>= f).Emits A := by
  induction p with
  | done a => exact hf a
  | read next ih => exact fun x => ih x (hp x)
  | emit e next ih => exact ⟨hp.1, ih hp.2⟩
  | await q next ih => exact ⟨hp.1, fun a => ⟨(hp.2 a).1, ih a (hp.2 a).2⟩⟩

theorem Emits.mono {A B : Act I → Prop} {p : Program I α} (hp : p.Emits A) (hAB : ∀ act, A act → B act) :
    p.Emits B := by
  induction p with
  | done a => exact hp
  | read next ih => exact fun x => ih x (hp x)
  | emit e next ih => exact ⟨hAB _ hp.1, ih hp.2⟩
  | await q next ih => exact ⟨hAB _ hp.1, fun a => ⟨hAB _ (hp.2 a).1, ih a (hp.2 a).2⟩⟩

end Program

/-- The shared state with everything that led to it, newest first. -/
structure Stage (I : Interface) where
  shared : I.State
  history : List (Entry I)

namespace Stage

def push (s : Stage I) (t : ℕ) (act : Act I) (x : I.State) : Stage I :=
  ⟨x, ⟨t, act, s.shared, x⟩ :: s.history⟩

def note (s : Stage I) (t : ℕ) (e : I.Event) : Stage I :=
  s.push t (.noted e) (I.apply e s.shared)

def begin (s : Stage I) (t : ℕ) (q : I.Query) : Stage I := s.push t (.began q) s.shared

def finish (s : Stage I) (t : ℕ) : Stage I := s.push t .ended s.shared

def drift (s : Stage I) (d : I.Drift) : Stage I := ⟨I.drift d s.shared, s.history⟩

@[simp] theorem push_shared (s : Stage I) (t : ℕ) (act : Act I) (x : I.State) :
    (s.push t act x).shared = x := rfl

@[simp] theorem push_history (s : Stage I) (t : ℕ) (act : Act I) (x : I.State) :
    (s.push t act x).history = ⟨t, act, s.shared, x⟩ :: s.history := rfl

@[simp] theorem note_shared (s : Stage I) (t : ℕ) (e : I.Event) :
    (s.note t e).shared = I.apply e s.shared := rfl

@[simp] theorem note_history (s : Stage I) (t : ℕ) (e : I.Event) :
    (s.note t e).history = ⟨t, .noted e, s.shared, I.apply e s.shared⟩ :: s.history := rfl

@[simp] theorem begin_shared (s : Stage I) (t : ℕ) (q : I.Query) :
    (s.begin t q).shared = s.shared := rfl

@[simp] theorem begin_history (s : Stage I) (t : ℕ) (q : I.Query) :
    (s.begin t q).history = ⟨t, .began q, s.shared, s.shared⟩ :: s.history := rfl

@[simp] theorem finish_shared (s : Stage I) (t : ℕ) : (s.finish t).shared = s.shared := rfl

@[simp] theorem finish_history (s : Stage I) (t : ℕ) :
    (s.finish t).history = ⟨t, .ended, s.shared, s.shared⟩ :: s.history := rfl

@[simp] theorem drift_shared (s : Stage I) (d : I.Drift) :
    (s.drift d).shared = I.drift d s.shared := rfl

@[simp] theorem drift_history (s : Stage I) (d : I.Drift) : (s.drift d).history = s.history := rfl

def Did (s : Stage I) (t : ℕ) (act : Act I) : Prop :=
  ∃ x ∈ s.history, x.tid = t ∧ x.act = act

theorem did_push_self (s : Stage I) (t : ℕ) (act : Act I) (x : I.State) :
    (s.push t act x).Did t act := ⟨_, List.mem_cons_self, rfl, rfl⟩

theorem Did.mono {s s' : Stage I} {t : ℕ} {act : Act I} (h : s.Did t act)
    (hs : s.history <:+ s'.history) : s'.Did t act := by
  obtain ⟨y, hy, ht, ha⟩ := h
  exact ⟨y, hs.subset hy, ht, ha⟩

def last (s : Stage I) (t : ℕ) : Option (Act I) :=
  (s.history.find? fun x => x.tid == t).map Entry.act

@[simp] theorem last_push_self (s : Stage I) (t : ℕ) (act : Act I) (x : I.State) :
    (s.push t act x).last t = some act := by
  simp [last]

theorem last_push_of_ne (s : Stage I) {t u : ℕ} (h : u ≠ t) (act : Act I) (x : I.State) :
    (s.push u act x).last t = s.last t := by
  simp [last, h]

@[simp] theorem last_drift (s : Stage I) (d : I.Drift) (t : ℕ) : (s.drift d).last t = s.last t :=
  rfl

theorem last_eq_none {s : Stage I} {t : ℕ} : s.last t = none ↔ ∀ x ∈ s.history, x.tid ≠ t := by
  simp [last]

def Live (s : Stage I) (t : ℕ) : Prop := ∃ act, s.last t = some act ∧ act ≠ .ended

/-- All that thread `t` has done between `s` and `s'` is one of `A`. -/
def Adds (t : ℕ) (A : Act I → Prop) (s s' : Stage I) : Prop :=
  ∃ newer, s'.history = newer ++ s.history ∧ ∀ x ∈ newer, x.tid = t → A x.act

namespace Adds

variable {t : ℕ} {A : Act I → Prop} {s s₁ s' : Stage I}

theorem refl (t : ℕ) (A : Act I → Prop) (s : Stage I) : Adds t A s s := ⟨[], rfl, nofun⟩

theorem trans (h : Adds t A s s₁) (h' : Adds t A s₁ s') : Adds t A s s' := by
  obtain ⟨newer, hs₁, hnewer⟩ := h
  obtain ⟨newer', hs', hnewer'⟩ := h'
  refine ⟨newer' ++ newer, by rw [hs', hs₁, List.append_assoc], fun x hx hxt => ?_⟩
  rcases List.mem_append.mp hx with hx | hx
  · exact hnewer' x hx hxt
  · exact hnewer x hx hxt

theorem push {u : ℕ} {act : Act I} {y : I.State} (h : u = t → A act) :
    Adds t A s (s.push u act y) := by
  refine ⟨[⟨u, act, s.shared, y⟩], rfl, fun x hx hxt => ?_⟩
  obtain rfl := List.mem_singleton.mp hx
  exact h hxt

theorem history (h : Adds t A s s') : s.history <:+ s'.history := by
  obtain ⟨newer, hs', -⟩ := h
  exact ⟨newer, hs'.symm⟩

theorem own (h : Adds t A s s') {x : Entry I} (hx : x ∈ s'.history) (hxt : x.tid = t) :
    x ∈ s.history ∨ A x.act := by
  obtain ⟨newer, hs', hnewer⟩ := h
  rw [hs'] at hx
  exact (List.mem_append.mp hx).symm.imp id fun hx => hnewer x hx hxt

end Adds

theorem Live.of_last {s : Stage I} {t : ℕ} {act : Act I} (h : s.last t = some act)
    (hact : act ≠ .ended) : s.Live t := ⟨act, h, hact⟩

end Stage

/-- Run to the next await, or to the end. -/
def advance (t : ℕ) : Program I Unit → Stage I → Program I Unit × Stage I
  | .done a, s => (.done a, s.finish t)
  | .read next, s => advance t (next s.shared) s
  | .emit e next, s => advance t next (s.note t e)
  | .await q next, s => (.await q next, s.begin t q)

/-- `p`, run by thread `t` with nothing else running, can return `a`. -/
inductive Runs (t : ℕ) : Program I α → Stage I → α → Stage I → Prop
  | done (a : α) (s : Stage I) : Runs t (.done a) s a s
  | read {next : I.State → Program I α} {s s' : Stage I} {a : α}
      (h : Runs t (next s.shared) s a s') : Runs t (.read next) s a s'
  | emit {e : I.Event} {next : Program I α} {s s' : Stage I} {a : α}
      (h : Runs t next (s.note t e) a s') : Runs t (.emit e next) s a s'
  | await {q : I.Query} {next : I.Answer q → Program I α} {s s' : Stage I} {a : α}
      {r : I.Answer q} {x : I.State} (hr : I.effect t q r s.shared = some x)
      (h : Runs t (next r) ((s.begin t q).push t (.answered q r) x) a s') :
      Runs t (.await q next) s a s'

theorem runs_bind {t : ℕ} {p : Program I α} {f : α → Program I β} {s s' : Stage I} {b : β} :
    Runs t (p.bind f) s b s' ↔ ∃ a s₁, Runs t p s a s₁ ∧ Runs t (f a) s₁ b s' := by
  constructor
  · intro h
    induction p generalizing s with
    | done a => exact ⟨a, s, .done a s, h⟩
    | read next ih =>
      cases h with
      | read h =>
        obtain ⟨a, s₁, h₁, h₂⟩ := ih _ h
        exact ⟨a, s₁, .read h₁, h₂⟩
    | emit e next ih =>
      cases h with
      | emit h =>
        obtain ⟨a, s₁, h₁, h₂⟩ := ih h
        exact ⟨a, s₁, .emit h₁, h₂⟩
    | await q next ih =>
      cases h with
      | await hr h =>
        obtain ⟨a, s₁, h₁, h₂⟩ := ih _ h
        exact ⟨a, s₁, .await hr h₁, h₂⟩
  · rintro ⟨a, s₁, h₁, h₂⟩
    induction h₁ with
    | done a s => exact h₂
    | read _ ih => exact .read (ih h₂)
    | emit _ ih => exact .emit (ih h₂)
    | await hr _ ih => exact .await hr (ih h₂)

/-- Run a program with the answers of one environment. -/
def Program.perform (t : ℕ) (answer : (q : I.Query) → I.Answer q) :
    Program I α → Stage I → Option (α × Stage I)
  | .done a, s => some (a, s)
  | .read next, s => (next s.shared).perform t answer s
  | .emit e next, s => next.perform t answer (s.note t e)
  | .await q next, s =>
    match I.effect t q (answer q) s.shared with
    | some x => (next (answer q)).perform t answer ((s.begin t q).push t (.answered q (answer q)) x)
    | none => none

theorem runs_of_perform {t : ℕ} {answer : (q : I.Query) → I.Answer q} {p : Program I α}
    {s s' : Stage I} {a : α} (h : p.perform t answer s = some (a, s')) : Runs t p s a s' := by
  induction p generalizing s with
  | done b =>
    obtain ⟨rfl, rfl⟩ := Prod.mk.inj (Option.some.inj h)
    exact .done b s
  | read next ih => exact .read (ih _ h)
  | emit e next ih => exact .emit (ih h)
  | await q next ih =>
    rw [Program.perform] at h
    split at h
    · rename_i x hx
      exact .await hx (ih _ h)
    · cases h

/-- A relation that every act of a program stays within holds from one end of its run to
the other. -/
theorem Runs.rel {t : ℕ} {p : Program I α} {s s' : Stage I} {a : α} {A : Act I → Prop}
    {r : I.State → I.State → Prop} (hrefl : ∀ x, r x x) (htrans : ∀ x y z, r x y → r y z → r x z)
    (hnote : ∀ e x, A (.noted e) → r x (I.apply e x))
    (hanswer : ∀ q a x y, I.effect t q a x = some y → r x y) (h : Runs t p s a s')
    (hp : p.Emits A) : r s.shared s'.shared := by
  induction h with
  | done a s => exact hrefl _
  | read _ ih => exact ih (hp _)
  | emit _ ih => exact htrans _ _ _ (hnote _ _ hp.1) (ih hp.2)
  | await hr _ ih => exact htrans _ _ _ (hanswer _ _ _ _ hr) (ih (hp.2 _).2)

end Resumption
