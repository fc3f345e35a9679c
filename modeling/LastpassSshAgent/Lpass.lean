import LastpassSshAgent.Text

/-!
# The vault's interface: items, errors, and what `lpass ls` prints
-/

namespace LastpassSshAgent

inductive LpassError where
  | notLoggedIn
  | locked
  | wrongMasterPassword
  | noMasterPassword (why : String)
  | itemNotFound (item : String)
  | fieldNotFound (item field : String)
  | timeout (seconds : ℕ)
  | fieldTooLarge (max : ℕ)
  | spawn (why : String)
  | commandFailed (code : Option ℤ) (stderr : String)
  deriving DecidableEq, Repr

def LpassError.display : LpassError → String
  | .notLoggedIn => "not logged in to LastPass — run `lpass login <email>` and retry"
  | .locked => "the vault is locked, and needs the master password to open"
  | .wrongMasterPassword => "LastPass did not accept the master password"
  | .noMasterPassword why => s!"the vault is locked, and no master password was given: {why}"
  | .itemNotFound item =>
    s!"LastPass item {item} not found (deleted, or not shared with this account?)"
  | .fieldNotFound item field => s!"LastPass item {item} has no {field} field"
  | .timeout seconds => s!"lpass did not finish within {seconds}s (killed)"
  | .fieldTooLarge max => s!"lpass returned more than {max} bytes for a single field"
  | .spawn why => s!"failed to run lpass: {why}"
  | .commandFailed (some code) stderr => s!"lpass exited with Some({code}): {stderr}"
  | .commandFailed none stderr => s!"lpass exited with None: {stderr}"

structure ItemSummary where
  id : String
  name : String
  deriving DecidableEq, Repr

/-- Decimal digits, at least one. -/
def isItemId (text : String) : Bool :=
  !text.toList.isEmpty && text.toList.all fun c => '0' ≤ c && c ≤ '9'

/-- The text on either side of the last `pattern`. -/
def rsplitOnce (pattern text : List Char) : Option (List Char × List Char) :=
  (splitOnce pattern.reverse text.reverse).map fun (after, before) =>
    (before.reverse, after.reverse)

/-- One `lpass ls` line, `Group/Name [id: 1234]`. The last marker counts, so a
name containing one cannot confuse it. -/
def parseLsLine (line : List Char) : Option ItemSummary :=
  match (trimEnd line).reverse with
  | ']' :: rest =>
    match rsplitOnce " [id: ".toList rest.reverse with
    | some (name, id) =>
      if isItemId (String.ofList id) then some ⟨String.ofList id, String.ofList name⟩ else none
    | none => none
  | _ => none

/-- The pieces between line feeds; nothing follows the last line feed. A line that
was ended loses a final carriage return. -/
def lines (text : String) : List (List Char) :=
  let pieces := text.toList.splitOn '\n'
  pieces.dropLast.map (fun line => if line.getLast? = some '\r' then line.dropLast else line) ++
    pieces.getLast?.toList.filter (!·.isEmpty)

theorem isItemId_of_parseLsLine {line : List Char} {item : ItemSummary}
    (h : parseLsLine line = some item) : isItemId item.id = true := by
  unfold parseLsLine at h
  split at h
  · split at h
    · split_ifs at h with hid
      obtain rfl := Option.some.inj h
      exact hid
    · cases h
  · cases h

end LastpassSshAgent
