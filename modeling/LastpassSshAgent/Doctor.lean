import LastpassSshAgent.Builders
import LastpassSshAgent.Enclave
import LastpassSshAgent.EnvCommand
import LastpassSshAgent.SocketPath
import LastpassSshAgent.Start

/-!
# The setup, checked the way the agent would use it

`doctor` loads the configuration, opens the vault and inspects its keys with the agent's own
functions. What it finds on the machine is given; what the vault says it has to ask for.
-/

namespace LastpassSshAgent

structure Check where
  ok : Bool
  label : String
  detail : String
  deriving DecidableEq, Repr

namespace Check

def passed (label detail : String) : Check := ⟨true, label, detail⟩

def failed (label detail : String) : Check := ⟨false, label, detail⟩

end Check

def ConfigError.display (path : String) : ConfigError → String
  | .missing => s!"config file not found at {path} (create it or pass --config)"
  | .read why => s!"failed to read config {path}: {why}"
  | .parse why => s!"failed to parse config {path}: {why}"
  | .refused e => e.display

structure Doctor where
  ssh : Ssh
  toml : Toml
  loader : ConfigLoader
  configPath : String
  file : ConfigFile
  /-- The binary for a configured path, or on the search path without one. -/
  resolveBinary : Option String → Option String
  /-- Something takes connections on the socket. -/
  agentIsRunning : Bool
  /-- `lpass login` has left a session. -/
  session : Bool
  /-- The vault's key on disk. -/
  plaintextKey : Option String
  runtime : Option Bytes
  /-- The directory of a socket's path, where it has one, and what is there. -/
  socketDir : Bytes → Option (SocketPath.Setup × Except String (Option SocketPath.Node))
  identities : Bytes → File
  sealedAt : Bytes → File
  storeAvailable : Bool

inductive DoctorError where
  | doctorFailed
  | refused (e : Error)
  deriving DecidableEq, Repr

namespace Doctor

variable (doctor : Doctor)

def socketPath (config : Config) : Except Error Bytes :=
  config.socketPath
    (defaultSocketPath doctor.loader.os doctor.runtime (doctor.loader.home.map utf8))

/-! ### The configuration and the client -/

def checkConfig : Check × Option Config :=
  match doctor.loader.load doctor.file with
  | .ok config =>
    let keys :=
      if config.keys.isEmpty then "no [[keys]] — auto-discovery"
      else s!"{config.keys.length} pinned key(s)"
    (.passed "config" s!"{doctor.configPath} ({keys})", some config)
  | .error .missing =>
    (.passed "config" s!"no file at {doctor.configPath} — using defaults + auto-discovery",
      (doctor.loader.loadOrDefault doctor.file).toOption)
  | .error e => (.failed "config" (e.display doctor.configPath), none)

def unlockFrom (config : Config) : Except Error Unlock :=
  if config.confirm = .askpass ∧ config.askpass = none then
    .error (.configInvalid "askpass mode without helper")
  else .ok ⟨config.masterPassword, config.masterPasswordIdle⟩

/-- Beside a running agent nothing may ask. -/
def oneShotSource (config : Config) : Except Error LpassCli := do
  if doctor.agentIsRunning then .ok ⟨.none, ⟨config.masterPassword, config.masterPasswordIdle⟩⟩
  else
    let unlock ← unlockFrom config
    .ok ⟨.unlock, unlock⟩

def checkLpassBinary (config : Option Config) : Except Error (Check × Option LpassCli) :=
  match doctor.resolveBinary (config.bind Config.lpassPath) with
  | none =>
    .ok (.failed "lpass binary"
      "not found on PATH (brew install lastpass-cli, or set `lpass_path`)", none)
  | some path =>
    match config with
    | none => .ok (.passed "lpass binary" path, some ⟨.none, ⟨.prompt, none⟩⟩)
    | some config => do
      let _ ← doctor.socketPath config
      let client ← doctor.oneShotSource config
      .ok (.passed "lpass binary" path, some client)

/-! ### The vault -/

def notLoggedIn : Check := .failed "lpass login" "not logged in — run `lpass login <email>`"

/-- Unfed, a locked vault and no login are told apart by the session. -/
def loginCheck : Except LpassError (List ItemSummary) → Check
  | .ok _ => .passed "lpass login" "logged in, and the vault opens"
  | .error .notLoggedIn => notLoggedIn
  | .error .locked =>
    if doctor.session then
      .passed "lpass login" "logged in; the vault is locked, and this command does not ask for the master password — a signature through the agent opens it, so the key checks are skipped here"
    else notLoggedIn
  | .error e => .failed "lpass login" e.display

def checkLogin (client : Option LpassCli) : Async (Option Check × Bool) :=
  match client with
  | none => pure (none, false)
  | some client => do
    let listing ← client.ls
    pure (some (doctor.loginCheck listing), listing.isOk)

def MAX_AUTH_TRIES : ℕ := 6

/-- A set larger than a server tries is worth a line, and fails nothing. -/
def tooManyKeys (label : String) (served : ℕ) : Option Check :=
  if MAX_AUTH_TRIES < served then
    some (.passed label
      s!"{served} served, and a server tries {MAX_AUTH_TRIES} by default before refusing — pin a few in [[keys]], or set `IdentitiesOnly yes` and an `IdentityFile` per host in ssh_config")
  else none

def keyLine (ssh : Ssh) : KeyInspection → Check
  | .usable entry =>
    .passed s!"key {entry.name} [id: {entry.itemId}]"
      s!"{ssh.algorithmName entry.publicKey.keyData.algorithm} {entry.fingerprint ssh}"
  | .unusable itemId name issue => .failed s!"key {name} [id: {itemId}]" issue.display

def keyLines (ssh : Ssh) (inspected : List KeyInspection) : List Check :=
  let checks := inspected.map (keyLine ssh)
  checks ++ (tooManyKeys "key count" (checks.countP Check.ok)).toList

def checkKeys (client : LpassCli) (config : Config) : Async (List Check) := do
  let keys ← effectiveKeys client config
  match keys with
  | .error e => pure [.failed "keys" e.display]
  | .ok keys => do
    let inspected ← inspectKeys doctor.ssh client config [] keys
    pure (keyLines doctor.ssh inspected)

/-! ### The files -/

/-- A directory that is not there yet passes: a start makes it. -/
def checkSocket (config : Config) : Check :=
  match doctor.socketPath config with
  | .error e => .failed "socket path" e.display
  | .ok path =>
    match doctor.socketDir path with
    | none => .failed "socket path" (SocketPath.BindError.socket "socket path has no parent directory").display
    | some (_, .error why) => .failed "socket path" (SocketPath.BindError.io why).display
    | some (setup, .ok dir) =>
      match SocketPath.validateDir setup dir with
      | .error e => .failed "socket path" e.display
      | .ok () => .passed "socket path" (fromUtf8Lossy path)

/-- A file of the agent's own, named after its socket. -/
def beside (socket : Bytes) (suffix : String) : String := fromUtf8Lossy (socket ++ utf8 suffix)

def checkRemembered (config : Config) : List Check :=
  let found := do
    let socket ← doctor.socketPath config
    let path := beside socket ".identities"
    let remembered ← Identities.load doctor.toml path (doctor.identities socket)
    .ok (path, remembered)
  match found with
  | .ok (path, some remembered) =>
    let served := (KeyStore.fromRemembered doctor.ssh remembered config).store.entries.length
    .passed "remembered identities" s!"{remembered.keys.length} at {path} — a running agent refreshes them after a signature; `list` rewrites them for the next start" ::
      (tooManyKeys "remembered key count" served).toList
  | .ok (path, none) =>
    [.passed "remembered identities" s!"none yet at {path} — the first start writes them"]
  | .error e => [.failed "remembered identities" e.display]

def checkPlaintextKey : Check :=
  match doctor.plaintextKey with
  | some path =>
    .failed "lpass key at rest" s!"{path} exists: `lpass login --plaintext-key` left the vault's key on disk, where every process running as you can open the whole vault and the screen lock and idle time here cannot close it — run `lpass logout`, then `lpass login` without that option"
  | none => .passed "lpass key at rest" "none"

/-- A question about a file, never about a fingerprint. -/
def masterPasswordSeeded (config : Config) : Bool :=
  let stored := do
    let socket ← doctor.socketPath config
    Enclave.load (beside socket ".master") (doctor.sealedAt socket)
  match stored with
  | .ok (some _) => true
  | _ => false

def masterPasswordCheck (source : MasterPassword) (available seeded : Bool) : Check :=
  match source with
  | .prompt =>
    .passed "master password" "asked for when the vault needs opening, and held only until it locks"
  | .touchId =>
    if !available then
      .failed "master password" "no Secure Enclave on this machine — use master_password = \"prompt\""
    else if !seeded then
      .failed "master password"
        "nothing stored yet — run `lastpass-ssh-agent store-master-password`"
    else .passed "master password" "stored, and released only on Touch ID"

/-- What is checked of a configuration without asking the vault. -/
def machineChecks (config : Config) : List Check :=
  doctor.checkSocket config :: doctor.checkRemembered config ++
    [masterPasswordCheck config.masterPassword doctor.storeAvailable
      (doctor.masterPasswordSeeded config)]

/-! ### The checklist -/

/-- The key checks wait for a configuration, a client and an open vault. -/
def keysOnceOpen (config : Option Config) (client : Option LpassCli) (loggedIn : Bool) :
    Async (List Check) :=
  match config, client, loggedIn with
  | some config, some client, true => doctor.checkKeys client config
  | _, _, _ => pure []

def outcome (report : List Check) : Except DoctorError Unit :=
  if report.all Check.ok then .ok () else .error .doctorFailed

/-- Every check the setup allows, and how the command ends. -/
def run : Async (List Check × Except DoctorError Unit) :=
  let (first, config) := doctor.checkConfig
  match doctor.checkLpassBinary config with
  | .error e => pure ([first], .error (.refused e))
  | .ok (second, client) => do
    let (login, loggedIn) ← doctor.checkLogin client
    let keys ← doctor.keysOnceOpen config client loggedIn
    let report := first :: second :: login.toList ++ doctor.checkPlaintextKey :: keys ++
      (config.map doctor.machineChecks).getD []
    pure (report, outcome report)

end Doctor

end LastpassSshAgent
