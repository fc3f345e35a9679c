import LastpassSshAgent.Text

/-!
# Approvals remembered until the vault locks

An approval records the epoch it was given in and is honoured in that epoch
only. The counters are 64-bit in the source and never reset; no run counts that
many locks, and they are natural numbers here.
-/

namespace LastpassSshAgent

structure LockEpoch where
  locks : ℕ := 0
  unlocks : ℕ := 0
  deriving DecidableEq, Repr

namespace LockEpoch

def bump (epoch : LockEpoch) : LockEpoch := { epoch with locks := epoch.locks + 1 }

def unlocked (epoch : LockEpoch) : LockEpoch := { epoch with unlocks := epoch.unlocks + 1 }

@[simp] theorem bump_locks (epoch : LockEpoch) : epoch.bump.locks = epoch.locks + 1 := rfl

@[simp] theorem bump_unlocks (epoch : LockEpoch) : epoch.bump.unlocks = epoch.unlocks := rfl

@[simp] theorem unlocked_locks (epoch : LockEpoch) : epoch.unlocked.locks = epoch.locks := rfl

@[simp] theorem unlocked_unlocks (epoch : LockEpoch) :
    epoch.unlocked.unlocks = epoch.unlocks + 1 := rfl

end LockEpoch

/-- What a signing request had by way of approval when it went to the vault. -/
inductive Answer where
  | notNeeded
  | remembered (epoch : ℕ)
  | given (question : Option String) (epoch : ℕ)
  deriving DecidableEq, Repr

inductive Verdict where
  | covered | voided
  deriving DecidableEq, Repr

structure Approvals where
  enabled : Bool
  remembered : String → Option ℕ

namespace Approvals

/-- The epoch this question was approved in, if that is the current one. -/
def rememberedIn (approvals : Approvals) (epoch : LockEpoch) (question : String) : Option ℕ :=
  (approvals.remembered question).filter (· = epoch.locks)

/-- Kept only when remembering is on and `answeredIn` is still the epoch; what
earlier epochs left is dropped on the way. -/
def rememberIn (approvals : Approvals) (epoch : LockEpoch) (question : String)
    (answeredIn : ℕ) : Approvals :=
  if !approvals.enabled || answeredIn != epoch.locks then approvals
  else
    { approvals with
      remembered := fun q =>
        if q = question then some answeredIn
        else (approvals.remembered q).filter (· = answeredIn) }

def settledEpoch (epoch : LockEpoch) (asked : Bool) : LockEpoch :=
  if asked then epoch.bump else epoch

def verdict (epoch : LockEpoch) (answer : Answer) (asked : Bool) : Verdict :=
  match answer with
  | .remembered answeredIn =>
    if asked || answeredIn != (settledEpoch epoch asked).locks then .voided else .covered
  | _ => .covered

def settle (approvals : Approvals) (epoch : LockEpoch) (answer : Answer) (asked signed : Bool) :
    Approvals :=
  match answer with
  | .given (some question) answeredIn =>
    if signed then
      approvals.rememberIn (settledEpoch epoch asked) question
        (if asked then answeredIn + 1 else answeredIn)
    else approvals
  | _ => approvals

theorem rememberedIn_eq_some {approvals : Approvals} {epoch : LockEpoch} {question : String}
    {e : ℕ} : approvals.rememberedIn epoch question = some e ↔
      approvals.remembered question = some e ∧ e = epoch.locks := by
  simp [rememberedIn, Option.filter_eq_some_iff]

theorem verdict_remembered_covered {epoch : LockEpoch} {e : ℕ} {asked : Bool} :
    verdict epoch (.remembered e) asked = .covered ↔ asked = false ∧ e = epoch.locks := by
  cases asked <;> simp [verdict, settledEpoch]

theorem rememberIn_remembered {approvals : Approvals} {epoch : LockEpoch} {question q : String}
    {answeredIn e : ℕ} (h : (approvals.rememberIn epoch question answeredIn).remembered q = some e) :
    approvals.remembered q = some e ∨ q = question ∧ e = answeredIn ∧ e = epoch.locks := by
  unfold rememberIn at h
  split_ifs at h with hk
  · exact .inl h
  · simp only [Bool.or_eq_true, Bool.not_eq_true', bne_iff_ne, ne_eq, not_or, not_not] at hk
    simp only at h
    split_ifs at h with hq
    · have he := Option.some.inj h
      exact .inr ⟨hq, he.symm, he ▸ hk.2⟩
    · exact .inl (Option.filter_eq_some_iff.mp h).1

theorem settle_remembered {approvals : Approvals} {epoch : LockEpoch} {answer : Answer}
    {asked signed : Bool} {q : String} {e : ℕ}
    (h : (approvals.settle epoch answer asked signed).remembered q = some e) :
    approvals.remembered q = some e ∨
      signed = true ∧ e = (settledEpoch epoch asked).locks ∧
        ∃ answeredIn, answer = .given (some q) answeredIn ∧
          e = if asked then answeredIn + 1 else answeredIn := by
  unfold settle at h
  split at h
  · rename_i question answeredIn
    cases signed with
    | false => exact .inl h
    | true =>
      rcases rememberIn_remembered h with h | ⟨rfl, he, hl⟩
      · exact .inl h
      · exact .inr ⟨rfl, hl, answeredIn, rfl, he⟩
  · exact .inl h

end Approvals

end LastpassSshAgent
