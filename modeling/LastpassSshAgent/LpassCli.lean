import LastpassSshAgent.Unlock

/-!
# The `lpass` client

Every call is made once with what is held, or without a password, and once more
with a password that was asked for when the first came back locked and the source
may ask.
-/

namespace LastpassSshAgent

def MAX_FIELD_BYTES : ℕ := 64 * 1024

def MAX_LISTING_BYTES : ℕ := 16 * 1024 * 1024

def DEFAULT_TIMEOUT : ℕ := 30

structure CmdOutput where
  success : Bool
  code : Option ℤ
  fed : Bool
  stdout : Bytes
  stderr : String
  deriving DecidableEq, Repr

namespace CmdOutput

/-- One final line feed goes, with a carriage return before it; never more. -/
def stripNewline (stdout : Bytes) : Bytes :=
  if stdout.getLast? = some 10 then
    if stdout.dropLast.getLast? = some 13 then stdout.dropLast.dropLast else stdout.dropLast
  else stdout

def diagnostics (stderr : Bytes) : String :=
  let escaped := escapeForDisplay (trim (fromUtf8Lossy (stderr.take MAX_FIELD_BYTES)))
  String.ofList (escaped.toList.take 300)

def of (fed : Bool) (maxBytes : ℕ) : LpassRun → Except LpassError CmdOutput
  | .spawn why => .error (.spawn why)
  | .timeout => .error (.timeout DEFAULT_TIMEOUT)
  | .exited code stdout stderr =>
    if maxBytes < stdout.length then .error (.fieldTooLarge maxBytes)
    else .ok ⟨code == some 0, code, fed, stripNewline stdout, diagnostics stderr⟩

def rejectedText : String := "Incorrect master password"

def noKeyText : String := "Could not find decryption key"

/-- `lpass` failed for want of the key, before anything was fed. -/
def locked (out : CmdOutput) : Bool :=
  !out.success && !out.fed && containsText out.stderr noKeyText

def wasRejected (out : CmdOutput) : Bool := containsText out.stderr rejectedText

/-- The field `lpass` says is missing, between the quotes. -/
def missingField (out : CmdOutput) : Option String := do
  let (_, rest) ← splitOnce "Could not find specified field '".toList out.stderr.toList
  let (field, _) ← splitOnce ['\''] rest
  some (String.ofList field)

/-- What a failed call means, for the item it was about. -/
def classifyItem (out : CmdOutput) (itemId : Option String) : LpassError :=
  match itemId with
  | none => .commandFailed out.code out.stderr
  | some id =>
    if containsText out.stderr "Could not find specified account" then .itemNotFound id
    else
      match out.missingField with
      | some field => .fieldNotFound id field
      | none => .commandFailed out.code out.stderr

def classify (out : CmdOutput) (itemId : Option String) : LpassError :=
  if out.wasRejected then .wrongMasterPassword
  else if containsText out.stderr noKeyText then if out.fed then .notLoggedIn else .locked
  else if containsText out.stderr "Not logged in" || containsText out.stderr "Could not find session"
  then .notLoggedIn
  else out.classifyItem itemId

end CmdOutput

structure LpassCli where
  source : MasterPasswordSource
  unlock : Unlock
  deriving DecidableEq, Repr

namespace LpassCli

variable (cli : LpassCli)

/-- The password to feed without asking anyone. -/
def held : Async (Option Bytes) :=
  match cli.source with
  | .none => pure none
  | .fixed secret => pure (some secret)
  | .unlock => do
    let held ← cli.unlock.password false
    pure (held.toOption.join)
  | .heldOnly => do
    let held ← cli.unlock.password false
    pure (held.toOption.join)

/-- The password after asking for it, when this source may. -/
def asked : Async (Except LpassError (Option Bytes)) :=
  match cli.source with
  | .unlock => do
    let password ← cli.unlock.password true
    pure (password.mapError .noMasterPassword)
  | _ => pure (.ok none)

def rejected : Async Unit :=
  match cli.source with
  | .unlock => Unlock.rejected
  | .heldOnly => Unlock.rejected
  | _ => pure ()

/-- A call has just finished. Not for `heldOnly`. -/
def used : Async Unit :=
  match cli.source with
  | .unlock => Unlock.touch
  | _ => pure ()

def exec (args : List String) (password : Option Bytes) (maxBytes : ℕ) :
    Async (Except LpassError CmdOutput) := do
  let run : LpassRun ← await (.lpass args password maxBytes)
  pure (CmdOutput.of password.isSome maxBytes run)

/-- Again with a password, if the vault turned out to need one and there is one. -/
def retry (args : List String) (maxBytes : ℕ) (out : CmdOutput) :
    Async (Except LpassError CmdOutput) :=
  if out.locked then do
    let password ← cli.asked
    match password with
    | .error e => pure (.error e)
    | .ok none => pure (.ok out)
    | .ok (some password) => exec args (some password) maxBytes
  else pure (.ok out)

def rejectIfWrong (out : CmdOutput) : Async Unit :=
  if out.wasRejected then cli.rejected else pure ()

def run (args : List String) (maxBytes : ℕ) : Async (Except LpassError CmdOutput) := do
  let held ← cli.held
  let first ← exec args held maxBytes
  match first with
  | .error e => pure (.error e)
  | .ok out => do
    let second ← cli.retry args maxBytes out
    match second with
    | .error e => pure (.error e)
    | .ok out => do
      cli.rejectIfWrong out
      cli.used
      pure (.ok out)

def shown (item : String) : Except LpassError CmdOutput → Except LpassError Bytes
  | .error e => .error e
  | .ok out => if out.success then .ok out.stdout else .error (out.classify (some item))

def showField (item field : String) : Async (Except LpassError Bytes) := do
  note (.called cli.source item field)
  let out ← cli.run ["show", "--field=" ++ field, item] MAX_FIELD_BYTES
  note (.returned cli.source item field (shown item out))
  pure (shown item out)

def parsed : Except LpassError CmdOutput → Except LpassError (List ItemSummary)
  | .error e => .error e
  | .ok out =>
    if out.success then .ok ((lines (fromUtf8Lossy out.stdout)).filterMap parseLsLine)
    else .error (out.classify none)

theorem isItemId_of_parsed {out : Except LpassError CmdOutput} {items : List ItemSummary}
    (h : parsed out = .ok items) : ∀ item ∈ items, isItemId item.id = true := by
  cases out with
  | error e => cases h
  | ok out =>
    have h' : (if out.success then .ok ((lines (fromUtf8Lossy out.stdout)).filterMap parseLsLine)
        else Except.error (out.classify none)) = Except.ok items := h
    split_ifs at h'
    obtain rfl := Except.ok.inj h'
    intro item hitem
    obtain ⟨line, -, hline⟩ := List.mem_filterMap.mp hitem
    exact isItemId_of_parseLsLine hline

def ls : Async (Except LpassError (List ItemSummary)) := do
  let out ← cli.run ["ls", "--color=never"] MAX_LISTING_BYTES
  note (.listed cli.source (parsed out))
  pure (parsed out)

end LpassCli

end LastpassSshAgent
