import LastpassSshAgent.Config
import LastpassSshAgent.Shell.Language

/-!
# What a shell evaluates to reach the agent

The text that `env` prints is an assignment and an `export`, with the socket's path between
single quotes. A path is its bytes; what is printed of it is text.
-/

namespace LastpassSshAgent

/-! ### The socket's path -/

def IsText (path : Bytes) : Prop := ∃ text, path = utf8 text

theorem utf8_fromUtf8Lossy_iff {path : Bytes} : utf8 (fromUtf8Lossy path) = path ↔ IsText path := by
  constructor
  · intro h
    exact ⟨_, h.symm⟩
  · rintro ⟨text, rfl⟩
    rw [fromUtf8Lossy_utf8]

/-- A separator stands between the two, unless there is one or nothing before it. -/
def joinPath (base : Bytes) (rest : String) : Bytes :=
  match base.getLast? with
  | none => utf8 rest
  | some last => if last = '/'.toUInt8 then base ++ utf8 rest else base ++ utf8 ("/" ++ rest)

theorem IsText.joinPath {base : Bytes} (h : IsText base) (rest : String) :
    IsText (joinPath base rest) := by
  obtain ⟨text, rfl⟩ := h
  unfold LastpassSshAgent.joinPath
  split
  · exact ⟨rest, rfl⟩
  · split_ifs
    · exact ⟨text ++ rest, (utf8_append text rest).symm⟩
    · exact ⟨text ++ ("/" ++ rest), (utf8_append text _).symm⟩

def socketDirFrom (os : Os) (runtime home : Option Bytes) : Option Bytes :=
  match runtime with
  | some runtime => some (joinPath runtime "lastpass-ssh-agent")
  | none =>
    home.map fun home =>
      match os with
      | .macos => joinPath home "Library/Application Support/lastpass-ssh-agent"
      | .linux | .other => joinPath home ".lastpass-ssh-agent"

/-- The directory that is given for a user's session is not looked for on macOS. -/
def runtimeDir (os : Os) (given : Option Bytes) : Option Bytes :=
  match os with
  | .macos => none
  | .linux | .other => given

def defaultSocketPath (os : Os) (runtime home : Option Bytes) : Option Bytes :=
  (socketDirFrom os (runtimeDir os runtime) home).map fun dir => joinPath dir "agent.sock"

theorem isText_of_defaultSocketPath {os : Os} {runtime home : Option Bytes} {path : Bytes}
    (hpath : defaultSocketPath os runtime home = some path)
    (hruntime : ∀ dir, runtime = some dir → IsText dir) (hhome : ∀ dir, home = some dir → IsText dir) :
    IsText path := by
  obtain ⟨dir, hdir, rfl⟩ := Option.map_eq_some_iff.mp hpath
  refine IsText.joinPath ?_ _
  unfold socketDirFrom at hdir
  split at hdir
  · rename_i given hgiven
    obtain rfl := Option.some.inj hdir
    refine IsText.joinPath (hruntime given ?_) _
    cases os with
    | macos => exact absurd hgiven nofun
    | linux => exact hgiven
    | other => exact hgiven
  · obtain ⟨home, hsome, rfl⟩ := Option.map_eq_some_iff.mp hdir
    cases os with
    | macos => exact (hhome home hsome).joinPath _
    | linux => exact (hhome home hsome).joinPath _
    | other => exact (hhome home hsome).joinPath _

def NO_SOCKET_PATH : Error :=
  .configInvalid "cannot determine a socket path; set `socket` in the config"

namespace Config

def socketPath (config : Config) (default : Option Bytes) : Except Error Bytes :=
  match (config.socket.map utf8).or default with
  | some path => .ok path
  | none => .error NO_SOCKET_PATH

theorem isAbsolute_of_validate {debug : String → String} {os : Os} {config : Config}
    {socket : String} (h : config.validate debug os = .ok ()) (hsocket : config.socket = some socket) :
    isAbsolute socket = true := by
  obtain ⟨⟨⟩, -, hrest⟩ := bind_eq_ok.mp h
  obtain ⟨⟨⟩, hchecked, -⟩ := bind_eq_ok.mp hrest
  rw [hsocket] at hchecked
  by_contra hrelative
  exact absurd ((if_neg hrelative).symm.trans hchecked) nofun

end Config

/-! ### The command -/

namespace EnvCommand

def SSH_AUTH_SOCK : List Char := "SSH_AUTH_SOCK".toList

def replaceQuotes (text : List Char) : List Char :=
  text.flatMap fun c => if c = '\'' then "'\\''".toList else [c]

def shQuote (path : Bytes) : List Char :=
  '\'' :: replaceQuotes (fromUtf8Lossy path).toList ++ ['\'']

def printEnv (socket : Bytes) : List Char :=
  "SSH_AUTH_SOCK=".toList ++ shQuote socket ++ "; export SSH_AUTH_SOCK;\n".toList

def run (loader : ConfigLoader) (runtime home : Option Bytes) (file : ConfigFile) :
    Except ConfigError (List Char) := do
  let config ← loader.loadOrDefault file
  let default := defaultSocketPath loader.os runtime home
  let path ← (config.socketPath default).mapError .refused
  .ok (printEnv path)

/-- What a substituted command's output is read as. -/
def substituted (output : List Char) : List Char :=
  (output.reverse.dropWhile (· == '\n')).reverse

def reached (s : Shell.State) (socket : List Char) : Shell.State :=
  (s.assign SSH_AUTH_SOCK socket).setExported SSH_AUTH_SOCK

variable {loader : ConfigLoader} {runtime home : Option Bytes} {file : ConfigFile} {text : List Char}
  {path : Bytes} {s : Shell.State}

theorem run_eq_ok : run loader runtime home file = .ok text ↔
    ∃ config path, loader.loadOrDefault file = .ok config ∧
      config.socketPath (defaultSocketPath loader.os runtime home) = .ok path ∧
      text = printEnv path := by
  unfold run
  constructor
  · intro h
    obtain ⟨config, hload, h⟩ := bind_eq_ok.mp h
    obtain ⟨path, hpath, h⟩ := bind_eq_ok.mp h
    exact ⟨config, path, hload, mapError_eq_ok.mp hpath, (Except.ok.inj h).symm⟩
  · rintro ⟨config, path, hload, hpath, rfl⟩
    exact bind_eq_ok.mpr ⟨config, hload, bind_eq_ok.mpr ⟨path, mapError_eq_ok.mpr hpath, rfl⟩⟩

/-- A command that is printed without its line break. -/
def exportLine (socket : Bytes) : List Char :=
  (SSH_AUTH_SOCK ++ '=' :: (Shell.quote (fromUtf8Lossy socket).toList ++ [';'])) ++
    ' ' :: (Shell.EXPORT ++ ' ' :: (SSH_AUTH_SOCK ++ [';']))

theorem shQuote_eq : shQuote path = Shell.quote (fromUtf8Lossy path).toList := by
  have hescaped : "'\\''".toList = ['\'', '\\', '\'', '\''] := by decide
  unfold shQuote replaceQuotes Shell.quote
  rw [hescaped]

theorem printEnv_eq : printEnv path = exportLine path ++ ['\n'] := by
  have hassign : "SSH_AUTH_SOCK=".toList = SSH_AUTH_SOCK ++ ['='] := by decide
  have hexport : "; export SSH_AUTH_SOCK;\n".toList =
      ';' :: (' ' :: (Shell.EXPORT ++ ' ' :: (SSH_AUTH_SOCK ++ [';'])) ++ ['\n']) := by decide
  unfold printEnv exportLine
  rw [shQuote_eq, hassign, hexport]
  simp only [List.append_assoc, List.cons_append, List.nil_append]

theorem substituted_printEnv : substituted (printEnv path) = exportLine path := by
  rw [printEnv_eq, substituted, exportLine]
  simp

theorem read_exportLine (h : Shell.NUL ∉ (fromUtf8Lossy path).toList)
    (hkept : s.kept SSH_AUTH_SOCK = false) :
    Shell.read (.start s) (exportLine path) =
      some (.start (reached s (fromUtf8Lossy path).toList)) := by
  have hname : Shell.isName SSH_AUTH_SOCK = true := by decide
  rw [exportLine, Shell.read_append, Shell.read_assignment hname hkept h, Option.bind_some,
    Shell.read_export hname]
  rfl

/-- The line break that ends the output ends no command. -/
theorem read_printEnv (h : Shell.NUL ∉ (fromUtf8Lossy path).toList)
    (hkept : s.kept SSH_AUTH_SOCK = false) :
    Shell.read (.start s) (printEnv path) =
      some (.start (reached s (fromUtf8Lossy path).toList)) := by
  rw [printEnv_eq, Shell.read_append, read_exportLine h hkept]
  rfl

theorem path_of_socketPath {config : Config} (hload : loader.loadOrDefault file = .ok config)
    (hpath : config.socketPath (defaultSocketPath loader.os runtime home) = .ok path) :
    (∀ socket, config.socket = some socket → path = utf8 socket ∧ Config.isAbsolute socket = true) ∧
      ((∀ dir, runtime = some dir ∨ home = some dir → IsText dir) → IsText path) := by
  unfold Config.socketPath at hpath
  cases hsocket : config.socket with
  | some configured =>
    rw [hsocket] at hpath
    obtain rfl : utf8 configured = path := Except.ok.inj hpath
    refine ⟨fun socket hsome => ?_, fun _ => ⟨configured, rfl⟩⟩
    obtain rfl := Option.some.inj hsome
    exact ⟨rfl, Config.isAbsolute_of_validate (ConfigLoader.validate_of_loadOrDefault hload) hsocket⟩
  | none =>
    rw [hsocket] at hpath
    refine ⟨nofun, fun hdirs => ?_⟩
    cases hdefault : defaultSocketPath loader.os runtime home with
    | none =>
      rw [hdefault] at hpath
      exact absurd hpath nofun
    | some default =>
      rw [hdefault] at hpath
      obtain rfl : default = path := Except.ok.inj hpath
      exact isText_of_defaultSocketPath hdefault (fun dir h => hdirs dir (.inl h))
        fun dir h => hdirs dir (.inr h)

/-- A path whose directory would be two commands and an expansion, were it not quoted. -/
def awkward : ConfigLoader where
  table _ := .ok []
  parse _ := .ok { Config.empty .linux with socket := some "/it's; rm $(x)/agent.sock" }
  home := none
  os := .linux
  debug := id

end EnvCommand

end LastpassSshAgent
