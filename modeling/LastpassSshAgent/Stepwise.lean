import LastpassSshAgent.Approvals
import LastpassSshAgent.Confirm
import LastpassSshAgent.Resumption.Reports

/-!
# Approving and settling, one atomic step at a time

Elsewhere a request looks a question up, or settles, in one go. Here every look at the
epoch, every bump of it and every section under the lock of what is remembered is a step of
its own, as are taking the gate and giving it back, and other requests and locks of the vault
may come between any two. What a request sees of its requester, what the user says and what
the vault work comes to are up to the environment.
-/

namespace LastpassSshAgent

open Resumption

/-- The section of `rememberIn` under the lock: what other epochs left goes, and the answer
is entered. -/
def Approvals.file (approvals : Approvals) (question : String) (answeredIn : ℕ) : Approvals :=
  { approvals with
    remembered := fun q =>
      if q = question then some answeredIn
      else (approvals.remembered q).filter (· = answeredIn) }

namespace Stepwise

structure Shared where
  gate : Option ℕ
  epoch : LockEpoch
  approvals : Approvals

/-- Whether the vault work of a request had to ask for the master password, and whether it
came to a signature. -/
structure Outcome where
  asked : Bool
  signed : Bool
  deriving DecidableEq, Repr

inductive Query where
  | gate
  | release
  | snapshot
  | current
  | lookup (question : String)
  | confirm (ctx : ConfirmContext)
  | fetch
  | sign
  | bump
  | file (question : String) (answeredIn : ℕ)
  deriving DecidableEq, Repr

/-- A `fetch` says whether the work has to reach the user. -/
def Query.Answer : Query → Type
  | .gate => Unit
  | .release => Unit
  | .snapshot => ConfirmContext
  | .current => ℕ
  | .lookup _ => Option ℕ
  | .confirm _ => Decision
  | .fetch => Bool
  | .sign => Outcome
  | .bump => Unit
  | .file _ _ => Unit

structure Settling where
  answer : Answer
  outcome : Outcome
  deriving DecidableEq, Repr

/-- Where a settle begins and ends; neither changes anything. -/
inductive Event where
  | settling (settling : Settling)
  | settled
  deriving DecidableEq, Repr

/-- One signing request, for a key that has to be confirmed or one that has not. -/
inductive Request where
  | sign (confirm : Bool)
  deriving DecidableEq, Repr

/-- The vault locks, whatever the requests do. -/
inductive Drift where
  | locked

def effect (t : ℕ) : (q : Query) → q.Answer → Shared → Option Shared
  | .gate, _, w => if w.gate = none then some { w with gate := some t } else none
  | .release, _, w => if w.gate = some t then some { w with gate := none } else none
  | .current, (now : ℕ), w => if now = w.epoch.locks then some w else none
  | .lookup question, (answeredIn : Option ℕ), w =>
    if answeredIn = w.approvals.remembered question then some w else none
  | .bump, _, w => some { w with epoch := w.epoch.bump }
  | .file question answeredIn, _, w =>
    some { w with approvals := w.approvals.file question answeredIn }
  | _, _, w => some w

abbrev stepwise : Interface where
  State := Shared
  Event := Event
  Query := Query
  Answer := Query.Answer
  Task := Request
  Drift := Drift
  apply _ w := w
  effect := effect
  launch _ w := some w
  drift _ w := { w with epoch := w.epoch.bump }

abbrev Steps (α : Type) : Type := Program stepwise α

abbrev step (q : Query) : Steps q.Answer := Program.ask (I := stepwise) q

/-- A step nothing is learnt from. -/
def perform (q : Query) : Steps Unit := do
  let _ ← step q
  pure ()

abbrev note (e : Event) : Steps Unit := Program.tell (I := stepwise) e

/-! ### Remembering -/

/-- The epoch is looked at before the lock is taken. -/
def rememberedIn (question : String) : Steps (Option ℕ) := do
  let now : ℕ ← step .current
  let answeredIn : Option ℕ ← step (.lookup question)
  pure (answeredIn.filter (· = now))

def rememberIn (question : String) (answeredIn : ℕ) : Steps Unit := do
  let w : Shared ← Program.get (I := stepwise)
  if !w.approvals.enabled then pure ()
  else do
    let now : ℕ ← step .current
    if answeredIn != now then pure () else perform (.file question answeredIn)

def bumpIf (asked : Bool) : Steps Unit := if asked then perform .bump else pure ()

def settle (answer : Answer) (asked signed : Bool) : Steps Verdict := do
  bumpIf asked
  match answer with
  | .notNeeded => pure .covered
  | .remembered answeredIn =>
    if asked then pure .voided
    else do
      let now : ℕ ← step .current
      pure (if answeredIn != now then .voided else .covered)
  | .given (some question) answeredIn =>
    if signed then do
      rememberIn question (if asked then answeredIn + 1 else answeredIn)
      pure .covered
    else pure .covered
  | .given none _ => pure .covered

/-! ### Requests -/

def enter (gate : Bool) : Steps Bool :=
  if gate then pure true
  else do
    let _ ← step .gate
    pure true

def drop (gate : Bool) : Steps Unit := if gate then perform .release else pure ()

def lookUp (ctx : ConfirmContext) : Steps (Option ℕ) :=
  match approvalQuestion ctx with
  | none => pure none
  | some question => rememberedIn question

/-- What the user says. A yes belongs to the epoch of the moment after it. -/
def confirm (ctx : ConfirmContext) : Steps (Option Answer) := do
  let decision : Decision ← step (.confirm ctx)
  match decision with
  | .approve => do
    let epoch : ℕ ← step .current
    pure (some (.given (approvalQuestion ctx) epoch))
  | .deny => pure none

/-- Once the gate is held the requester is looked at anew, and so is what is remembered. -/
def approvalUnderGate (gate : Bool) : Steps (Option Answer × Bool) := do
  let gate ← enter gate
  let ctx : ConfirmContext ← step .snapshot
  let answered ← lookUp ctx
  match answered with
  | some epoch => pure (some (.remembered epoch), gate)
  | none => do
    let answer ← confirm ctx
    pure (answer, gate)

def approvalFor (gate : Bool) : Steps (Option Answer × Bool) := do
  let ctx : ConfirmContext ← step .snapshot
  let answered ← lookUp ctx
  match answered with
  | some epoch => pure (some (.remembered epoch), gate)
  | none => approvalUnderGate gate

def enterIf (reaches gate : Bool) : Steps Bool := if reaches then enter gate else pure gate

def vaultWork (gate : Bool) : Steps (Outcome × Bool) := do
  let reaches : Bool ← step .fetch
  let gate ← enterIf reaches gate
  let outcome : Outcome ← step .sign
  pure (outcome, gate)

/-- From the vault work on; the gate is kept until the answer is settled. -/
def signApproved (answer : Answer) (gate : Bool) : Steps Unit := do
  let (outcome, gate) ← vaultWork gate
  note (.settling ⟨answer, outcome⟩)
  let _ ← settle answer outcome.asked outcome.signed
  note .settled
  drop gate

def answerFor (confirm gate : Bool) : Steps (Option Answer × Bool) :=
  if confirm then approvalFor gate else pure (some .notNeeded, gate)

def sign (confirm : Bool) : Steps Unit := do
  let (answer, gate) ← answerFor confirm false
  match answer with
  | none => drop gate
  | some answer => signApproved answer gate

def code : Request → Steps Unit
  | .sign confirm => sign confirm

/-- Nobody is being asked anything, and nothing is remembered. -/
structure Fresh (w : Shared) : Prop where
  gate : w.gate = none
  remembered : ∀ question, w.approvals.remembered question = none

def Reachable (P : Pool stepwise) : Prop := P.Reachable code Fresh

/-! ### The steps in one go -/

section

variable {t : ℕ} {s s' : Stage stepwise}

theorem rememberIn_eq_file (approvals : Approvals) (epoch : LockEpoch) (question : String)
    (answeredIn : ℕ) : approvals.rememberIn epoch question answeredIn =
      if !approvals.enabled || answeredIn != epoch.locks then approvals
      else approvals.file question answeredIn := rfl

theorem runs_step {β : Type} {q : Query} {f : q.Answer → Steps β} {b : β}
    (h : Runs t ((step q).bind f) s b s') : ∃ a w s₁, effect t q a s.shared = some w ∧
      s₁.shared = w ∧ Runs t (f a) s₁ b s' := by
  obtain ⟨a, s₁, hstep, hrest⟩ := runs_bind.mp h
  cases hstep with
  | @await _ _ _ _ _ a' w hw hdone =>
    cases hdone
    exact ⟨_, w, _, hw, rfl, hrest⟩

theorem effect_current {now : ℕ} {w w' : Shared} (h : effect t .current now w = some w') :
    now = w.epoch.locks ∧ w' = w := by
  simp only [effect] at h
  split_ifs at h with hnow
  exact ⟨hnow, (Option.some.inj h).symm⟩

theorem effect_lookup {question : String} {answeredIn : Option ℕ} {w w' : Shared}
    (h : effect t (.lookup question) answeredIn w = some w') :
    answeredIn = w.approvals.remembered question ∧ w' = w := by
  simp only [effect] at h
  split_ifs at h with hanswered
  exact ⟨hanswered, (Option.some.inj h).symm⟩

theorem runs_done {β : Type} {a b : β} (h : Runs t (pure a : Steps β) s b s') : b = a ∧ s' = s := by
  cases h
  exact ⟨rfl, rfl⟩

/-- With nothing in between, a question is looked up in one go. -/
theorem rememberedIn_runs {question : String} {r : Option ℕ}
    (h : Runs t (rememberedIn question) s r s') :
    r = s.shared.approvals.rememberedIn s.shared.epoch question ∧ s'.shared = s.shared := by
  obtain ⟨now, w, s₁, hnow, rfl, h⟩ := runs_step h
  obtain ⟨rfl, hs₁⟩ := effect_current hnow
  obtain ⟨answeredIn, w, s₂, hanswered, rfl, h⟩ := runs_step h
  obtain ⟨rfl, hs₂⟩ := effect_lookup hanswered
  obtain ⟨rfl, rfl⟩ := runs_done h
  rw [hs₂, hs₁]
  exact ⟨rfl, rfl⟩

theorem rememberIn_runs {question : String} {answeredIn : ℕ} {u : Unit}
    (h : Runs t (rememberIn question answeredIn) s u s') :
    s'.shared = { s.shared with
      approvals := s.shared.approvals.rememberIn s.shared.epoch question answeredIn } := by
  rw [rememberIn_eq_file]
  cases h with
  | read h =>
    dsimp only [Program.bind] at h
    split_ifs at h with henabled
    · obtain ⟨-, rfl⟩ := runs_done h
      rw [henabled]
      rfl
    · obtain ⟨now, w, s₁, hnow, rfl, h⟩ := runs_step h
      obtain ⟨rfl, hs₁⟩ := effect_current hnow
      rw [Bool.eq_false_of_not_eq_true henabled, Bool.false_or]
      split_ifs at h with hepoch
      · obtain ⟨-, rfl⟩ := runs_done h
        rw [if_pos hepoch]
        exact hs₁
      · rw [if_neg hepoch]
        obtain ⟨a, w, s₂, hfile, rfl, h⟩ := runs_step h
        obtain ⟨-, rfl⟩ := runs_done h
        rw [← Option.some.inj hfile, hs₁]

theorem bumpIf_runs {asked : Bool} {u : Unit} (h : Runs t (bumpIf asked) s u s') :
    s'.shared = { s.shared with epoch := Approvals.settledEpoch s.shared.epoch asked } := by
  cases asked with
  | false =>
    obtain ⟨-, rfl⟩ := runs_done h
    rfl
  | true =>
    obtain ⟨a, w, s₁, hbump, rfl, h⟩ := runs_step h
    obtain ⟨-, rfl⟩ := runs_done h
    exact (Option.some.inj hbump).symm

/-- With nothing in between, a request settles in one go. -/
theorem settle_runs {answer : Answer} {asked signed : Bool} {verdict : Verdict}
    (h : Runs t (settle answer asked signed) s verdict s') :
    verdict = Approvals.verdict s.shared.epoch answer asked ∧
      s'.shared = { s.shared with
        epoch := Approvals.settledEpoch s.shared.epoch asked
        approvals := s.shared.approvals.settle s.shared.epoch answer asked signed } := by
  obtain ⟨u, s₁, hbump, h⟩ := runs_bind.mp h
  have hs₁ := bumpIf_runs hbump
  cases answer with
  | notNeeded =>
    obtain ⟨rfl, rfl⟩ := runs_done h
    exact ⟨rfl, hs₁⟩
  | remembered answeredIn =>
    cases asked with
    | true =>
      obtain ⟨rfl, rfl⟩ := runs_done h
      exact ⟨rfl, hs₁⟩
    | false =>
      obtain ⟨now, w, s₂, hnow, rfl, h⟩ := runs_step h
      obtain ⟨rfl, hs₂⟩ := effect_current hnow
      obtain ⟨rfl, rfl⟩ := runs_done h
      rw [hs₂, hs₁]
      exact ⟨rfl, rfl⟩
  | given question answeredIn =>
    cases question with
    | none =>
      obtain ⟨rfl, rfl⟩ := runs_done h
      exact ⟨rfl, hs₁⟩
    | some question =>
      cases signed with
      | false =>
        obtain ⟨rfl, rfl⟩ := runs_done h
        exact ⟨rfl, hs₁⟩
      | true =>
        obtain ⟨u, s₂, hremember, h⟩ := runs_bind.mp h
        obtain ⟨rfl, rfl⟩ := runs_done h
        rw [rememberIn_runs hremember, hs₁]
        exact ⟨rfl, rfl⟩

end

end Stepwise

end LastpassSshAgent
