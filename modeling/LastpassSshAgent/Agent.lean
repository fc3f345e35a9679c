import LastpassSshAgent.Unlocker
import LastpassSshAgent.Wire

/-!
# Signing

A request that only ever reads from the vault runs beside the others. One that
reaches the user takes the gate at its first prompt and keeps it to its end.
-/

namespace LastpassSshAgent

/-- What fetching a private key came to, and whether the vault had to be asked for
the master password. -/
structure Fetch where
  key : Except LpassError Bytes
  asked : Bool
  deriving DecidableEq, Repr

structure LpassAgent where
  ssh : Ssh
  lpass : LpassCli
  asking : LpassCli
  unlocker : Unlocker
  remembered : Option String
  refreshes : Bool
  peer : Option PeerInfo
  bindings : List SessionBinding

namespace LpassAgent

variable (agent : LpassAgent)

/-! ### Approval -/

/-- Each binding with its name; a lookup that gave up names fewer, and the rest
keep their fingerprints. -/
def nameBindings : List SessionBinding → List (Option String) → List SessionBinding
  | bind :: bindings, name :: names => { bind with hostName := name } :: nameBindings bindings names
  | bindings, _ => bindings

/-- This connection's bindings with the names of their hosts. Without bindings there
is nothing to look up. -/
def namedBindings : Async (List SessionBinding) :=
  if agent.bindings.isEmpty then pure []
  else do
    let names : List (Option String) ←
      await (.namesFor (agent.bindings.map SessionBinding.hostFingerprint))
    pure (nameBindings agent.bindings names)

def context (w : World) (entry : KeyEntry) (named : List SessionBinding) : ConfirmContext :=
  .new agent.ssh w.processes entry agent.peer named

def rememberedAnswer (w : World) (ctx : ConfirmContext) : Option (String × ℕ) :=
  (approvalQuestion ctx).bind fun question =>
    (w.approvals.rememberedIn w.epoch question).map fun epoch => (question, epoch)

def answerRemembered (answered : String × ℕ) (gate : Bool) : Async (Except AgentError Answer × Bool) := do
  note (.recalled answered.1 answered.2)
  pure (.ok (.remembered answered.2), gate)

def confirm (ctx : ConfirmContext) (gate : Bool) : Async (Except AgentError Answer × Bool) := do
  let decision : Decision ← await (.confirm ctx)
  match decision with
  | .approve => do
    let w ← world
    pure (.ok (.given (approvalQuestion ctx) w.epoch.locks), gate)
  | .deny => pure (.error .failure, gate)

/-- The question again under the gate: another request may have had it answered
meanwhile, and the requester is looked at anew. -/
def approvalUnderGate (entry : KeyEntry) (named : List SessionBinding) (gate : Bool) :
    Async (Except AgentError Answer × Bool) := do
  let gate ← InteractionGate.enter gate
  let w ← world
  match rememberedAnswer w (agent.context w entry named) with
  | some answered => answerRemembered answered gate
  | none => confirm (agent.context w entry named) gate

def approvalFor (entry : KeyEntry) (gate : Bool) : Async (Except AgentError Answer × Bool) := do
  let named ← agent.namedBindings
  let w ← world
  match rememberedAnswer w (agent.context w entry named) with
  | some answered => answerRemembered answered gate
  | none => agent.approvalUnderGate entry named gate

def answerFor (entry : KeyEntry) (gate : Bool) : Async (Except AgentError Answer × Bool) :=
  if entry.confirm then agent.approvalFor entry gate else pure (.ok .notNeeded, gate)

/-! ### The private key -/

def fetchAsking (entry : KeyEntry) (gate : Bool) : Async (Fetch × Bool) := do
  let gate ← InteractionGate.enter gate
  let before ← world
  let key ← agent.asking.showField entry.itemId "Private Key"
  let after ← world
  pure (⟨key, after.epoch.unlocks != before.epoch.unlocks⟩, gate)

/-- Through the client that cannot prompt first, and without the gate. -/
def fetchPrivateKey (entry : KeyEntry) (gate : Bool) : Async (Fetch × Bool) := do
  let key ← agent.lpass.showField entry.itemId "Private Key"
  match key with
  | .error .locked => agent.fetchAsking entry gate
  | key => pure (⟨key, false⟩, gate)

def discardRemembered (itemId why : String) : Async Unit :=
  match agent.remembered with
  | none => pure ()
  | some _ => note (.discarded itemId why)

/-- Absence is the vault's verdict on a key; a vault that cannot be asked says
nothing about it. -/
def isGone : LpassError → Bool
  | .itemNotFound _ => true
  | .fieldNotFound _ _ => true
  | _ => false

def goneText : String := "the vault no longer holds this key"

def mismatchText : String := "the vault's key no longer matches the advertised one"

/-- A key that is the advertised one: decrypt it if it is encrypted, and sign. -/
def signMatched (entry : KeyEntry) (key : PrivateKey) (data : Bytes) (flags : UInt32)
    (gate : Bool) : Async (Except String Signature × Bool) :=
  if key.isEncrypted then do
    let (unlocked, gate) ← agent.unlocker.unlock entry key gate
    pure (unlocked.bind fun key => (signWithKey agent.ssh key data flags).mapError SignError.display,
      gate)
  else pure ((signWithKey agent.ssh key data flags).mapError SignError.display, gate)

/-- The advertised key and no other, checked before anything is unlocked. -/
def signFetched (entry : KeyEntry) (pem data : Bytes) (flags : UInt32) (gate : Bool) :
    Async (Except String Signature × Bool) :=
  if pem.isEmpty then pure (.error "item has an empty Private Key field", gate)
  else
    match agent.ssh.privateFromOpenssh pem with
    | .error e => pure (.error s!"parsing private key: {e}", gate)
    | .ok key =>
      if key.publicKey.keyData = entry.publicKey.keyData then
        agent.signMatched entry key data flags gate
      else do
        agent.discardRemembered entry.itemId mismatchText
        pure (.error "private key does not match the advertised public key — vault item changed since startup?",
          gate)

def signWith (entry : KeyEntry) (fetched : Except LpassError Bytes) (data : Bytes) (flags : UInt32)
    (gate : Bool) : Async (Except String Signature × Bool) :=
  match fetched with
  | .ok pem => agent.signFetched entry pem data flags gate
  | .error e =>
    if isGone e then do
      agent.discardRemembered entry.itemId goneText
      pure (.error s!"fetching private key: {e.display}", gate)
    else pure (.error s!"fetching private key: {e.display}", gate)

/-! ### The request -/

/-- On a bound connection only a userauth request for the session bound last. -/
def boundElsewhere (entry : KeyEntry) (data : Bytes) : Bool :=
  match agent.bindings.getLast? with
  | none => false
  | some bound =>
    let publicKey := (agent.ssh.publicToBytes entry.publicKey).toOption.getD []
    match userauthSessionId data publicKey bound.hostKey with
    | .ok (some sessionId) => sessionId != bound.sessionId
    | _ => true

/-- What becomes of a signature once the answer it was made on is settled. -/
def release (answer : Answer) (asked : Bool) (signed : Except String Signature) :
    Async (Except AgentError Signature) := do
  let w ← world
  note (.settled answer asked signed.isOk)
  match signed, Approvals.verdict w.epoch answer asked with
  | .ok signature, .covered =>
    if agent.refreshes then do
      note .issued
      pure (.ok signature)
    else pure (.ok signature)
  | .ok _, .voided => pure (.error .failure)
  | .error _, _ => pure (.error .failure)

def signApproved (entry : KeyEntry) (request : SignRequest) (answer : Answer) (gate : Bool) :
    Async (Except AgentError Signature × Bool) := do
  let (fetch, gate) ← agent.fetchPrivateKey entry gate
  let (signed, gate) ← agent.signWith entry fetch.key request.data request.flags gate
  let result ← agent.release answer fetch.asked signed
  pure (result, gate)

def signEntry (entry : KeyEntry) (request : SignRequest) (gate : Bool) :
    Async (Except AgentError Signature × Bool) := do
  let (answer, gate) ← agent.answerFor entry gate
  match answer with
  | .error e => pure (.error e, gate)
  | .ok answer => agent.signApproved entry request answer gate

/-- One snapshot for the whole request: a refresh landing meanwhile must not change
which key this is about. -/
def signRequest (request : SignRequest) (gate : Bool) :
    Async (Except AgentError Signature × Bool) := do
  let w ← world
  match w.served.lookup request.keyData with
  | none => pure (.error .failure, gate)
  | some entry =>
    if agent.boundElsewhere entry request.data then pure (.error .failure, gate)
    else agent.signEntry entry request gate

/-- The gate is dropped when the request has its result. -/
def sign (request : SignRequest) : Async Unit := do
  let (result, gate) ← agent.signRequest request InteractionGate.new
  note (.replied result)
  InteractionGate.drop gate

end LpassAgent

end LastpassSshAgent
