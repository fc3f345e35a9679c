import LastpassSshAgent.World

/-!
# The interaction gate, and the master password as the agent holds it

The password is behind a lock of its own, which is kept across the prompt, so two
calls arriving while nothing is held raise one prompt between them.
-/

namespace LastpassSshAgent

namespace InteractionGate

def new : Bool := false

def enter (held : Bool) : Async Bool :=
  if held then pure true
  else do
    let _ ← await .gate
    pure true

def drop (held : Bool) : Async Unit := if held then note .gateReleased else pure ()

end InteractionGate

def MAX_PASSPHRASE_BYTES : ℕ := 1024

/-! ### Obtaining it -/

/-- What the platform's store gives. Too long a value, none, or a store that cannot
be asked all fall through to the prompt. -/
def askStore (source : MasterPassword) (skipStore : Bool) : Async (Option Bytes) :=
  if source = .touchId ∧ skipStore = false then do
    let answer : Except String (Option Bytes) ← await .masterStore
    match answer with
    | .ok (some secret) => pure (if MAX_PASSPHRASE_BYTES < secret.length then none else some secret)
    | .ok none => pure none
    | .error _ => pure none
  else pure none

def askPrompt : Async (Except Error (Bytes × Source)) := do
  let answer : Except PromptError Bytes ← await (.prompt .master)
  match answer with
  | .error e => pure (.error (.configInvalid e.display))
  | .ok typed =>
    if typed.isEmpty then pure (.error (.configInvalid "no master password entered"))
    else pure (.ok (typed, .prompt))

def resolve (source : MasterPassword) (skipStore : Bool) :
    Async (Except Error (Bytes × Source)) := do
  let stored ← askStore source skipStore
  match stored with
  | some secret => pure (.ok (secret, .store))
  | none => askPrompt

/-! ### Holding it -/

structure Unlock where
  source : MasterPassword
  idle : Option ℕ
  deriving DecidableEq, Repr

namespace Unlock

variable (unlock : Unlock)

/-- Ask while the lock is held. The ask is counted before anybody answers it. -/
def askHolding : Async (Except String (Option Bytes)) := do
  note .asked
  let w ← world
  let resolved ← resolve unlock.source w.storeRejected
  match resolved with
  | .error e => do
    note .heldReleased
    pure (.error e.display)
  | .ok (secret, source) => do
    note (.holding secret source)
    note .heldReleased
    pure (.ok (some secret))

/-- The password for one vault call: what is held, or what asking supplies. -/
def password (ask : Bool) : Async (Except String (Option Bytes)) := do
  let _ ← await .held
  let w ← world
  match w.held with
  | some current => do
    note .heldReleased
    pure (.ok (some current.secret))
  | none =>
    if ask then unlock.askHolding
    else do
      note .heldReleased
      pure (.ok none)

def touch : Async Unit := do
  let _ ← await .held
  note .touched
  note .heldReleased

/-- `lpass` did not accept what it was given. -/
def rejected : Async Unit := do
  let _ ← await .held
  note .rejected
  note .heldReleased

/-- The screen has locked. -/
def forget : Async Unit := do
  let _ ← await .held
  note .forgotten
  note .heldReleased

def idled (idle : ℕ) (w : World) : Bool := w.held.any fun held => idle ≤ w.clock - held.lastUsed

def expireIfIdle : Async Unit :=
  match unlock.idle with
  | none => pure ()
  | some idle => do
    let _ ← await .held
    let w ← world
    if idled idle w then do
      note .expired
      note .heldReleased
    else note .heldReleased

end Unlock

end LastpassSshAgent
