import LastpassSshAgent.Lpass

/-!
# The configuration and its validation
-/

namespace LastpassSshAgent

/-! ### Steps that may fail -/

theorem bind_eq_ok {ε α β : Type} {x : Except ε α} {f : α → Except ε β} {b : β} :
    x >>= f = .ok b ↔ ∃ a, x = .ok a ∧ f a = .ok b := by
  cases x with
  | error e => exact iff_of_false nofun (by simp)
  | ok a => simp [bind, Except.bind]

theorem mapError_eq_ok {ε ε' α : Type} {f : ε → ε'} {x : Except ε α} {a : α} :
    x.mapError f = .ok a ↔ x = .ok a := by
  cases x with
  | error e => exact iff_of_false nofun nofun
  | ok b => simp [Except.mapError]

/-! ### Settings -/

inductive ConfirmMode where
  | osascript | tty | askpass | off
  deriving DecidableEq, Repr

inductive PassphraseFallback where
  | prompt | error | keychain | secretService
  deriving DecidableEq, Repr

inductive MasterPassword where
  | prompt | touchId
  deriving DecidableEq, Repr

inductive Os where
  | macos | linux | other
  deriving DecidableEq, Repr

structure KeyConfig where
  id : String
  name : Option String := none
  confirm : Option Bool := none
  passphraseFallback : Option PassphraseFallback := none
  deriving DecidableEq, Repr

namespace KeyConfig

def displayName (key : KeyConfig) : String := key.name.getD key.id

end KeyConfig

/-- Settings as an empty file leaves them; the confirmation mode and the screen
lock default by platform and are given. -/
structure Config where
  socket : Option String := none
  confirm : ConfirmMode
  confirmTimeoutSecs : ℕ := 30
  lpassPath : Option String := none
  askpass : Option String := none
  passphraseFallback : PassphraseFallback := .prompt
  masterPasswordIdleSecs : Option ℕ := none
  masterPassword : MasterPassword := .prompt
  lockOnScreenLock : Bool
  rememberApprovals : Bool := false
  keys : List KeyConfig := []
  deriving DecidableEq, Repr

def DEFAULT_MASTER_PASSWORD_IDLE : ℕ := 3600

def MAX_CONFIRM_TIMEOUT_SECS : ℕ := 3600

inductive Error where
  | configInvalid (text : String)
  | state (text : String)
  | lpass (e : LpassError)
  | io (text : String)
  deriving DecidableEq, Repr

def Error.display : Error → String
  | .configInvalid text => s!"invalid config: {text}"
  | .state text => text
  | .lpass e => e.display
  | .io text => text

namespace Config

def isAbsolute (path : String) : Bool := path.toList.head? = some '/'

/-- How long a held password may go unused; zero configured is no limit. -/
def masterPasswordIdle (config : Config) : Option ℕ :=
  match config.masterPasswordIdleSecs with
  | none => some DEFAULT_MASTER_PASSWORD_IDLE
  | some 0 => none
  | some seconds => some seconds

def confirmRequired (config : Config) (key : KeyConfig) : Bool :=
  let enabled := config.confirm != .off
  match key.confirm with
  | none => enabled
  | some explicit => explicit && enabled

def fallbackFor (config : Config) (key : KeyConfig) : PassphraseFallback :=
  key.passphraseFallback.getD config.passphraseFallback

def usesFallback (config : Config) (wanted : PassphraseFallback) : Bool :=
  if config.keys.isEmpty then config.passphraseFallback == wanted
  else config.keys.any fun key => config.fallbackFor key == wanted

def checkAbsolute (name : String) (path : Option String) : Except Error Unit :=
  match path with
  | some path =>
    if isAbsolute path then .ok () else .error (.configInvalid s!"{name} {path} must be absolute")
  | none => .ok ()

def checkSocket (socket : Option String) : Except Error Unit :=
  match socket with
  | some socket =>
    if isAbsolute socket then .ok ()
    else .error (.configInvalid s!"socket path {socket} must be absolute — SSH clients resolve SSH_AUTH_SOCK from their own working directory")
  | none => .ok ()

/-- `debug` renders a string the way the refusal of a key id quotes it. -/
def checkKeys (debug : String → String) (keys : List KeyConfig) : Except Error Unit :=
  match keys.find? fun key => !isItemId key.id with
  | some key => .error (.configInvalid s!"key id {debug key.id} must be a numeric LastPass item id (use `lastpass-ssh-agent search` to find it)")
  | none =>
    if (keys.map KeyConfig.id).Nodup then .ok ()
    else .error (.configInvalid "duplicate key ids in [[keys]]")

def checkConfirm (config : Config) : Except Error Unit :=
  if config.confirm = .askpass ∧ config.askpass = none then
    .error (.configInvalid "confirm = \"askpass\" requires `askpass` to point at a helper program")
  else if config.confirmTimeoutSecs = 0 ∨ MAX_CONFIRM_TIMEOUT_SECS < config.confirmTimeoutSecs then
    .error (.configInvalid s!"confirm_timeout_secs must be between 1 and {MAX_CONFIRM_TIMEOUT_SECS}")
  else .ok ()

def checkPlatform (os : Os) (config : Config) : Except Error Unit :=
  if os ≠ .macos ∧ config.usesFallback .keychain then
    .error (.configInvalid "passphrase_fallback = \"keychain\" is only supported on macOS")
  else if os ≠ .linux ∧ config.usesFallback .secretService then
    .error (.configInvalid "passphrase_fallback = \"secretservice\" is only supported on Linux")
  else if os ≠ .macos ∧ config.masterPassword = .touchId then
    .error (.configInvalid "master_password = \"touchid\" is only supported on macOS")
  else if os = .other ∧ config.lockOnScreenLock then
    .error (.configInvalid "lock_on_screen_lock is only supported on macOS and Linux")
  else .ok ()

def validate (debug : String → String) (os : Os) (config : Config) : Except Error Unit := do
  checkKeys debug config.keys
  checkSocket config.socket
  checkAbsolute "lpass_path" config.lpassPath
  checkAbsolute "askpass" config.askpass
  checkConfirm config
  checkPlatform os config

variable {debug : String → String} {os : Os} {config : Config}

theorem checkKeys_of_validate (h : config.validate debug os = .ok ()) :
    checkKeys debug config.keys = .ok () := by
  obtain ⟨⟨⟩, hkeys, -⟩ := bind_eq_ok.mp h
  exact hkeys

theorem isItemId_of_validate (h : config.validate debug os = .ok ()) :
    ∀ key ∈ config.keys, isItemId key.id = true := by
  have hk := checkKeys_of_validate h
  unfold checkKeys at hk
  split at hk
  · cases hk
  · rename_i hnone
    intro key hkey
    simpa using List.find?_eq_none.mp hnone key hkey

theorem nodup_of_validate (h : config.validate debug os = .ok ()) :
    (config.keys.map KeyConfig.id).Nodup := by
  have hk := checkKeys_of_validate h
  unfold checkKeys at hk
  split at hk
  · cases hk
  · split_ifs at hk with hn
    exact hn

/-! ### What loads -/

def defaultConfirm : Os → ConfirmMode
  | .macos => .osascript
  | _ => .tty

/-- On wherever it can work. -/
def defaultLockOnScreenLock : Os → Bool
  | .other => false
  | _ => true

def empty (os : Os) : Config where
  confirm := defaultConfirm os
  lockOnScreenLock := defaultLockOnScreenLock os

theorem validate_empty (debug : String → String) (os : Os) :
    (empty os).validate debug os = .ok () := by
  cases os with
  | macos => rfl
  | linux => rfl
  | other => rfl

/-- The rest of a path under `~`, without separators and dots at its ends. -/
def stripTilde (path : String) : Option (List Char) :=
  match path.toList.splitOn '/' with
  | first :: rest =>
    if first = ['~'] then
      let idle : List Char → Bool := fun piece => piece.isEmpty || piece == ['.']
      some (List.intercalate ['/'] ((rest.dropWhile idle).reverse.dropWhile idle).reverse)
    else none
  | [] => none

/-- Without a home directory the path stays as it is written. -/
def expandTilde (home : Option String) (path : String) : String :=
  match stripTilde path, home with
  | some stripped, some home =>
    if home.toList.getLast? = some '/' then home ++ String.ofList stripped
    else home ++ "/" ++ String.ofList stripped
  | _, _ => path

def expandPaths (home : Option String) (config : Config) : Config :=
  { config with
    socket := config.socket.map (expandTilde home)
    lpassPath := config.lpassPath.map (expandTilde home)
    askpass := config.askpass.map (expandTilde home) }

end Config

inductive ConfigFile where
  | missing
  | unreadable (why : String)
  | text (raw : String)
  deriving DecidableEq, Repr

inductive ConfigError where
  | missing
  | read (why : String)
  | parse (why : String)
  | refused (e : Error)
  deriving DecidableEq, Repr

/-- What loading rests on beside the file: the TOML library, whose tables are known here by
their keys, the home directory, the platform, and how a string is quoted. -/
structure ConfigLoader where
  table : String → Except String (List String)
  parse : String → Except String Config
  home : Option String
  os : Os
  debug : String → String

namespace ConfigLoader

def MISNAMED : String := "vault_unlock_timeout_secs"

variable (loader : ConfigLoader)

/-- Names a setting that is written under another name. -/
def refuseMisnamed (raw : String) : Except Error Unit :=
  match loader.table raw with
  | .ok keys =>
    if MISNAMED ∈ keys then
      .error (.configInvalid s!"`{MISNAMED}` is not a setting: how long the master password is kept is `master_password_idle_secs`")
    else .ok ()
  | .error _ => .ok ()

def load : ConfigFile → Except ConfigError Config
  | .missing => .error .missing
  | .unreadable why => .error (.read why)
  | .text raw => do
    (loader.refuseMisnamed raw).mapError .refused
    let config ← (loader.parse raw).mapError .parse
    let config := config.expandPaths loader.home
    (config.validate loader.debug loader.os).mapError .refused
    .ok config

def loadOrDefault (file : ConfigFile) : Except ConfigError Config :=
  match loader.load file with
  | .error .missing => .ok (.empty loader.os)
  | other => other

variable {loader} {file : ConfigFile} {config : Config}

theorem validate_of_load (h : loader.load file = .ok config) :
    config.validate loader.debug loader.os = .ok () := by
  cases file with
  | missing => cases h
  | unreadable why => cases h
  | text raw =>
    obtain ⟨⟨⟩, -, hparsed⟩ := bind_eq_ok.mp h
    obtain ⟨parsed, -, hchecked⟩ := bind_eq_ok.mp hparsed
    obtain ⟨⟨⟩, hvalid, hdone⟩ := bind_eq_ok.mp hchecked
    obtain rfl := Except.ok.inj hdone
    exact mapError_eq_ok.mp hvalid

theorem validate_of_loadOrDefault (h : loader.loadOrDefault file = .ok config) :
    config.validate loader.debug loader.os = .ok () := by
  unfold loadOrDefault at h
  split at h
  · obtain rfl := Except.ok.inj h
    exact Config.validate_empty _ _
  · exact validate_of_load h

end ConfigLoader

end LastpassSshAgent
