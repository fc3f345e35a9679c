import LastpassSshAgent.Confirm
import LastpassSshAgent.Framing.Reader

/-!
# SSH wire encoding, as attackers send it

A cursor over length-prefixed strings and single bytes, and the two formats read
with it. Slicing past the end of a slice would panic, and is an outcome of its own
here.
-/

namespace LastpassSshAgent

inductive Panic where
  | outOfRange (start length : ℕ)
  | underflow (a b : ℕ)
  deriving DecidableEq, Repr

abbrev Wire (α : Type) : Type := Framing.Reader Panic UInt8 α

namespace Wire

def USIZE_BOUND : ℕ := 2 ^ 64

def checkedAdd (a b : ℕ) : Option ℕ := if a + b < USIZE_BOUND then some (a + b) else none

/-- `data.get(start..stop)`. -/
def getRange (data : Bytes) (start stop : ℕ) : Option Bytes :=
  if start ≤ stop ∧ stop ≤ data.length then some ((data.drop start).take (stop - start)) else none

/-- `&data[start..]`. -/
def sliceFrom (data : Bytes) (start : ℕ) : Except Panic Bytes :=
  if start ≤ data.length then .ok (data.drop start) else .error (.outOfRange start data.length)

def fromBeBytes (bytes : Bytes) : ℕ := bytes.foldl (fun n b => n * 256 + b.toNat) 0

def stringEnd (data : Bytes) : Option ℕ :=
  (getRange data 0 4).bind fun length => checkedAdd 4 (fromBeBytes length)

def byte : Wire UInt8 := fun data =>
  match data with
  | [] => OptionT.mk (.ok none)
  | first :: rest => OptionT.mk (.ok (some (first, rest)))

def string : Wire Bytes := fun data =>
  match stringEnd data with
  | none => OptionT.mk (.ok none)
  | some stop =>
    match getRange data 4 stop with
    | none => OptionT.mk (.ok none)
    | some value => OptionT.mk ((sliceFrom data stop).map fun rest => some (value, rest))

/-- Run a reader over the whole of `data`; what it leaves over is its own to check. -/
def run {α : Type} (reader : Wire α) (data : Bytes) : Except Panic (Option α) :=
  (reader data).run.map (Option.map Prod.fst)

end Wire

/-! ### Userauth requests -/

def SSH_MSG_USERAUTH_REQUEST : UInt8 := 50

def sshConnection : Bytes := utf8 "ssh-connection"

def publickeyMethod : Bytes := utf8 "publickey"

def hostboundMethod : Bytes := utf8 "publickey-hostbound-v00@openssh.com"

/-- The rest of a host-bound request is the server's host key. -/
def hostBoundTo (method hostKey : Bytes) : Wire Unit :=
  if method = hostboundMethod then do
    let named ← Wire.string
    guard (named = hostKey)
  else pure ()

def userauthRequest (publicKey hostKey : Bytes) : Wire Bytes := do
  let sessionId ← Wire.string
  let message ← Wire.byte
  guard (message = SSH_MSG_USERAUTH_REQUEST)
  let _user ← Wire.string
  let service ← Wire.string
  guard (service = sshConnection)
  let method ← Wire.string
  guard (method = hostboundMethod ∨ method = publickeyMethod)
  let signed ← Wire.byte
  guard (signed = 1)
  let _algorithm ← Wire.string
  let named ← Wire.string
  guard (named = publicKey)
  hostBoundTo method hostKey
  let rest ← get
  guard (rest = [])
  pure sessionId

/-- The session id a userauth request is for, when `data` is one, whole, for
`publicKey`, and in the host-bound form for `hostKey`. -/
def userauthSessionId (data publicKey hostKey : Bytes) : Except Panic (Option Bytes) :=
  Wire.run (userauthRequest publicKey hostKey) data

/-! ### Session bindings -/

structure SessionBindRequest where
  hostKey : Bytes
  sessionId : Bytes
  signature : Bytes
  isForwarding : Bool
  deriving DecidableEq, Repr

def sessionBindRequest : Wire SessionBindRequest := do
  let hostKey ← Wire.string
  let sessionId ← Wire.string
  let signature ← Wire.string
  let forwarding ← Wire.byte
  let rest ← get
  guard (rest = [])
  pure ⟨hostKey, sessionId, signature, forwarding != 0⟩

/-- The fields of a binding, when `data` is one with nothing after it. -/
def sessionBind (data : Bytes) : Except Panic (Option SessionBindRequest) :=
  Wire.run sessionBindRequest data

inductive BindError where
  | hostKey (why : String)
  | signature (why : String)
  | unverified (why : String)
  deriving DecidableEq, Repr

def BindError.display : BindError → String
  | .hostKey why => s!"the host key does not parse: {why}"
  | .signature why => s!"the host's signature does not parse: {why}"
  | .unverified why => s!"the host's signature does not verify: {why}"

def certificateSuffix : Bytes := utf8 "-cert-v01@openssh.com"

/-- The algorithm id, not what parses, says whether the host sent a certificate. -/
def isCertificate (hostKey : Bytes) : Bool :=
  match Wire.run Wire.string hostKey with
  | .ok (some id) => certificateSuffix.isSuffixOf id
  | _ => false

variable (ssh : Ssh)

def boundSignature (bind : SessionBindRequest) : Except BindError Signature :=
  match ssh.signatureDecode bind.signature with
  | .error e => .error (.signature e)
  | .ok (signature, rest) =>
    if rest = [] then .ok signature else .error (.signature "trailing data")

/-- The key a binding's host proved itself with: the one it sent, or the one inside
the certificate it sent. -/
def boundHostKey (bind : SessionBindRequest) : Except BindError KeyData := do
  let parsed :=
    if isCertificate bind.hostKey then ssh.certificateFromBytes bind.hostKey
    else ssh.publicFromBytes bind.hostKey
  let hostKey ← parsed.mapError .hostKey
  let signature ← boundSignature ssh bind
  let _ ← (ssh.verify hostKey bind.sessionId signature).mapError .unverified
  .ok hostKey

/-! ### The connection's bindings -/

inductive Response where
  | failure
  | success
  | extensions (names : List String)
  | signature (signature : Signature)
  deriving DecidableEq, Repr

structure Extension where
  name : String
  details : Bytes
  deriving DecidableEq, Repr

def MAX_SESSION_BINDINGS : ℕ := 16

def MAX_SESSION_ID_BYTES : ℕ := 128

def MAX_HOST_KEY_BYTES : ℕ := 64 * 1024

def queryName : String := "query"

def sessionBindName : String := "session-bind@openssh.com"

/-- What may follow the hops already bound: nothing after a destination, a replay
unchanged, one host key to a session, and no more than the limit. -/
def bindHop (bindings : List SessionBinding) (bind : SessionBindRequest) (hostKey : KeyData) :
    Response × List SessionBinding :=
  if bindings.getLast?.any fun last => !last.isForwarding then (.failure, bindings)
  else if bindings.any fun seen => seen.hostKey == bind.hostKey && seen.sessionId == bind.sessionId
  then (.success, bindings)
  else if bindings.any fun seen => seen.sessionId == bind.sessionId then (.failure, bindings)
  else if MAX_SESSION_BINDINGS ≤ bindings.length then (.failure, bindings)
  else
    (.success, bindings ++ [⟨ssh.fingerprint hostKey, none, bind.isForwarding, bind.sessionId,
      bind.hostKey⟩])

def handleSessionBind (bindings : List SessionBinding) (details : Bytes) :
    Response × List SessionBinding :=
  match sessionBind details with
  | .ok (some bind) =>
    if MAX_SESSION_ID_BYTES < bind.sessionId.length then (.failure, bindings)
    else if MAX_HOST_KEY_BYTES < bind.hostKey.length then (.failure, bindings)
    else
      match boundHostKey ssh bind with
      | .ok hostKey => bindHop ssh bindings bind hostKey
      | .error _ => (.failure, bindings)
  | _ => (.failure, bindings)

/-- The answer to an extension request, and the connection's bindings after it. -/
def handleExtension (bindings : List SessionBinding) (extension : Extension) :
    Response × List SessionBinding :=
  if extension.name = queryName then (.extensions [sessionBindName], bindings)
  else if extension.name ≠ sessionBindName then (.failure, bindings)
  else handleSessionBind ssh bindings extension.details

end LastpassSshAgent
