import LastpassSshAgent.System

/-!
# `start` and `list`, as far as the identities file goes

A start serves what was written down when that covers every pinned key, and otherwise
reads the vault, as `list` does. Either writes a set down only when nothing was skipped
from it.
-/

namespace LastpassSshAgent

/-- The store a remembered file can stand in for the vault with, or `none` when the
vault has to be asked after all. -/
def rememberedStore (ssh : Ssh) (toml : Toml) (path : String) (config : Config) (file : File) :
    Except Error (Option KeyStore) := do
  match ← Identities.load toml path file with
  | none => .ok none
  | some remembered =>
    let rebuilt := KeyStore.fromRemembered ssh remembered config
    if rebuilt.store.isEmpty then .ok none
    else if !rebuilt.missing.isEmpty then .ok none
    else .ok (some rebuilt.store)

theorem rememberedStore_of_load {ssh : Ssh} {toml : Toml} {path : String} {config : Config}
    {file : File} {remembered : Remembered} {rebuilt : FromRemembered}
    (hload : Identities.load toml path file = .ok (some remembered))
    (hrebuilt : KeyStore.fromRemembered ssh remembered config = rebuilt) :
    rememberedStore ssh toml path config file =
      .ok (if rebuilt.store.entries = [] ∨ rebuilt.missing ≠ [] then none else some rebuilt.store) := by
  have hsteps : rememberedStore ssh toml path config file =
      if rebuilt.store.isEmpty then .ok none
      else if !rebuilt.missing.isEmpty then .ok none else .ok (some rebuilt.store) := by
    rw [rememberedStore, hload, ← hrebuilt]
    rfl
  rw [hsteps]
  obtain ⟨⟨entries⟩, missing⟩ := rebuilt
  cases entries with
  | nil => rfl
  | cons entry entries =>
    cases missing with
    | nil => rfl
    | cons key missing => rfl

def vaultNeededText (e : LpassError) : String :=
  s!"{e.display} — this start has to read the vault, since nothing is written down yet: open it, or run `lastpass-ssh-agent list` while it is open, and start again; later starts need no vault"

/-- A start that cannot read the vault says what gets past that. -/
def firstStartNeedsTheVault : Error → Error
  | .lpass .locked => .state (vaultNeededText .locked)
  | .lpass (.noMasterPassword why) => .state (vaultNeededText (.noMasterPassword why))
  | .lpass .notLoggedIn => .state (vaultNeededText .notLoggedIn)
  | other => other

def checkedSub (a b : ℕ) : Option ℕ := if b ≤ a then some (a - b) else none

/-- A command that runs to its end on one client. -/
structure Command where
  ssh : Ssh
  toml : Toml
  config : Config
  client : LpassCli
  rememberedAt : String

namespace Command

variable (command : Command)

/-- Write a scanned set down for the next start, but only a set nothing was skipped
from. -/
def rememberIfComplete (store : KeyStore) (wanted : ℕ) : Async (Except Panic Unit) :=
  match checkedSub wanted store.entries.length with
  | none => pure (.error (.underflow wanted store.entries.length))
  | some skipped =>
    if skipped = 0 then do
      Refresher.saveBestEffort command.toml (store.remember command.ssh)
      pure (.ok ())
    else pure (.ok ())

def scannedStore : Async (Except Error (KeyStore × ℕ)) := do
  let keys ← effectiveKeys command.client command.config
  match keys with
  | .error e => pure (.error e)
  | .ok keys => do
    let store ← KeyStore.load command.ssh command.client command.config keys
    pure (store.map fun store => (store, keys.length))

def startStore : Async (Except Error (KeyStore × Option ℕ)) := do
  let w ← world
  match rememberedStore command.ssh command.toml command.rememberedAt command.config w.identities with
  | .error e => pure (.error e)
  | .ok (some store) => pure (.ok (store, none))
  | .ok none => do
    let scanned ← command.scannedStore
    pure ((scanned.mapError firstStartNeedsTheVault).map fun (store, wanted) =>
      (store, some wanted))

/-- `start`, to where it serves. `bound` is what becomes of the prompts and the socket. -/
def start (bound : Except Error Unit) : Async (Except Panic (Except Error KeyStore)) := do
  let loaded ← command.startStore
  match loaded, bound with
  | .error e, _ => pure (.ok (.error e))
  | .ok _, .error e => pure (.ok (.error e))
  | .ok (store, none), .ok () => pure (.ok (.ok store))
  | .ok (store, some wanted), .ok () => do
    let remembered ← command.rememberIfComplete store wanted
    pure (remembered.map fun _ => .ok store)

def list (parent : Except Error Unit) : Async (Except Panic (Except Error KeyStore)) := do
  let scanned ← command.scannedStore
  match scanned, parent with
  | .error e, _ => pure (.ok (.error e))
  | .ok _, .error e => pure (.ok (.error e))
  | .ok (store, wanted), .ok () => do
    let remembered ← command.rememberIfComplete store wanted
    pure (remembered.map fun _ => .ok store)

end Command

end LastpassSshAgent
