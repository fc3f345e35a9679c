import LastpassSshAgent.Agent
import LastpassSshAgent.Refresher

/-!
# The agent as `start` wires it

Two views of one vault: `asking` reaches for the master password when the vault is
locked, `quiet` is fed only what is already held.
-/

namespace LastpassSshAgent

structure Env where
  ssh : Ssh
  toml : Toml
  config : Config
  rememberedAt : String

namespace Env

variable (env : Env)

def unlock : Unlock := ⟨env.config.masterPassword, env.config.masterPasswordIdle.map seconds⟩

def asking : LpassCli := ⟨.unlock, env.unlock⟩

def quiet : LpassCli := ⟨.heldOnly, env.unlock⟩

def unlocker : Unlocker := ⟨env.ssh, env.quiet⟩

def refresher : Refresher := ⟨env.ssh, env.toml, env.config, env.quiet⟩

def session (peer : Option PeerInfo) (bindings : List SessionBinding) : LpassAgent where
  ssh := env.ssh
  lpass := env.quiet
  asking := env.asking
  unlocker := env.unlocker
  remembered := some env.rememberedAt
  refreshes := true
  peer := peer
  bindings := bindings

def code : Task → Async Unit
  | .sign peer bindings request => (env.session peer bindings).sign request
  | .refresh => env.refresher.scan
  | .probe item => do
    let _ ← env.quiet.showField item "NoteType"
    pure ()
  | .forget => Unlock.forget
  | .expire => env.unlock.expireIfIdle

/-- The world once the socket is bound: nothing is locked or approved yet, and the
scan at startup is about to begin. A scan of the vault before that may have left the
master password held. -/
structure Starts (w : World) : Prop where
  gate : w.gate = none
  heldLock : w.heldLock = none
  held : ∀ held, w.held = some held → held.lastUsed ≤ w.clock
  enabled : w.approvals.enabled = env.config.rememberApprovals
  remembered : ∀ question, w.approvals.remembered question = none
  refresh : w.refresh = Refresh.atStartup ⟨none, false, 0⟩

/-- The states the wired agent can be in, under every schedule. -/
def Reachable (P : Resumption.Pool runtime) : Prop :=
  P.Reachable env.code env.Starts

end Env

/-! ### A vault of two keys

An agent small enough to run: two pinned items, one of whose keys is encrypted, and a
library that knows their two public halves. -/

namespace Sample

def plain : PublicKey where
  keyData := ⟨.ed25519, [4, 230, 7, 229, 111, 19, 60, 20, 29, 121, 175, 187, 204, 177, 241, 109,
    94, 238, 154, 124, 174, 66, 102, 230, 242, 65, 29, 25, 155, 198, 48, 252]⟩
  comment := "test-ed25519"

def encrypted : PublicKey where
  keyData := ⟨.ed25519, [121, 190, 105, 253, 29, 188, 237, 210, 68, 63, 43, 103, 54, 252, 168, 201,
    7, 199, 120, 56, 6, 178, 242, 189, 58, 238, 29, 175, 46, 209, 241, 194]⟩
  comment := "test-ed25519-pw"

def plainText : String :=
  "ssh-ed25519 AAAAC3NzaC1lZDI1NTE5AAAAIATmB+VvEzwUHXmvu8yx8W1e7pp8rkJm5vJBHRmbxjD8 test-ed25519"

def encryptedText : String :=
  "ssh-ed25519 AAAAC3NzaC1lZDI1NTE5AAAAIHm+af0dvO3SRD8rZzb8qMkHx3g4BrLyvTruHa8u0fHC test-ed25519-pw"

def ssh : Ssh where
  algorithmName _ := "ssh-ed25519"
  fingerprint key :=
    if key = plain.keyData then "SHA256:0WfFJFesqXKxE3C4SGTzZ/+mb3AzYvhjoxgKemT4FQw"
    else "SHA256:NLdqJRa09Cyk2UmlrxigWOPAmSNg4WqfM9zePIBAklU"
  publicFromOpenssh text :=
    if text = plainText then .ok plain
    else if text = encryptedText then .ok encrypted
    else .error "invalid Base64 encoding"
  publicToOpenssh key := if key = plain then plainText else encryptedText
  publicToBytes key := .ok key.keyData.blob
  publicFromBytes blob := .ok ⟨.ed25519, blob⟩
  certificateFromBytes _ := .error "not a certificate"
  signatureDecode bytes := .ok (⟨"ssh-ed25519", bytes⟩, [])
  verify _ data signature := if signature.data = data then .ok () else .error "signature error"
  privateFromOpenssh pem :=
    if pem = [1] then .ok ⟨plain, .ed25519 [1]⟩
    else if pem = [2] then .ok ⟨encrypted, .encrypted [2]⟩
    else .error "invalid PEM label"
  decrypt key secret :=
    if key.keyData = .encrypted secret then .ok { key with keyData := .ed25519 secret }
    else .error "cryptographic error"
  trySign _ data := .ok ⟨"ssh-ed25519", data⟩
  signatureNew name data := .ok ⟨name, data⟩
  bigUint _ := .error "no RSA keys here"
  rsaFromComponents _ _ _ _ := .error "no RSA keys here"
  signRsa _ _ _ := .error "no RSA keys here"

def sets : List Remembered :=
  [⟨[⟨"11", "plain", plainText⟩]⟩,
    ⟨[⟨"11", "plain", plainText⟩, ⟨"22", "encrypted", encryptedText⟩]⟩]

def render (remembered : Remembered) : String :=
  "\n".intercalate (remembered.keys.map fun key => "[[keys]]\nid = \"" ++ key.id ++
    "\"\nname = \"" ++ key.name ++ "\"\npublic = \"" ++ key.publicKey ++ "\"\n")

def toml : Toml where
  encode remembered := if remembered ∈ sets then .ok (render remembered) else .error "unsupported"
  decode text := (sets.find? fun remembered => render remembered == text).elim (.error "invalid") .ok

def config : Config where
  confirm := .tty
  lockOnScreenLock := true
  rememberApprovals := true
  keys := [{ id := "11", name := some "plain" }, { id := "22", name := some "encrypted" }]

def env : Env := ⟨ssh, toml, config, "/run/user/501/agent.identities"⟩

def served : KeyStore where
  entries := [⟨"11", "plain", plain, true, .prompt⟩, ⟨"22", "encrypted", encrypted, true, .prompt⟩]

def world : World where
  clock := 0
  gate := none
  heldLock := none
  held := none
  storeRejected := false
  epoch := {}
  approvals := ⟨true, fun _ => none⟩
  served := served
  identities := .absent
  diskWorks := true
  refresh := Refresh.atStartup ⟨none, false, 0⟩
  processes := ⟨fun pid => if pid = 7 then some "/usr/bin/ssh" else none, fun _ => none⟩

theorem starts : env.Starts world where
  gate := rfl
  heldLock := rfl
  held := nofun
  enabled := rfl
  remembered _ := rfl
  refresh := rfl

theorem reachable_start : env.Reachable (.start world) := ⟨world, starts, .refl⟩

theorem decryptKeepsPublic : ssh.DecryptKeepsPublic := by
  intro key secret key' h
  simp only [ssh] at h
  split_ifs at h
  obtain rfl := Except.ok.inj h
  rfl

def answer (run : LpassRun) (typed : Bytes) : (q : Query) → q.Answer
  | .gate => ()
  | .held => ()
  | .lpass _ _ _ => run
  | .masterStore => .ok none
  | .prompt _ => .ok typed
  | .confirm _ => Decision.approve
  | .namesFor _ => []
  | .storeGet _ => .ok none
  | .storeSet _ _ => .ok ()
  | .nextProbe _ => (0 : ℕ)

def sign (t : ℕ) (key : PublicKey) (bindings : List SessionBinding) (data : Bytes) :
    Resumption.Move runtime :=
  .spawn t (.sign (some ⟨some 7, 501⟩) bindings ⟨key.keyData, data, 0⟩)

/-- Thread `t` goes on; a vault call finds the vault locked. -/
def go (t : ℕ) : Resumption.Move runtime :=
  .reply t (answer (.exited (some 1) [] (utf8 CmdOutput.noKeyText)) [2])

/-- Thread `t` goes on; a vault call prints `out`. -/
def vault (t : ℕ) (out : Bytes) : Resumption.Move runtime :=
  .reply t (answer (.exited (some 0) out []) [2])

end Sample

end LastpassSshAgent
