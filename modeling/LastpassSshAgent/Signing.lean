import LastpassSshAgent.Ssh

/-!
# Which keys can sign, and how
-/

namespace LastpassSshAgent

inductive SignError where
  | refusedSha1
  | unsupportedKeyType (name : String)
  | crypto (why : String)
  deriving DecidableEq, Repr

def SignError.display : SignError → String
  | .refusedSha1 =>
    "client requested ssh-rsa (SHA-1) — refused; every OpenSSH since 7.2 requests SHA-2"
  | .unsupportedKeyType name => s!"unsupported key type {name}"
  | .crypto why => s!"signing failed: {why}"

def RSA_SHA2_256 : UInt32 := 2

def RSA_SHA2_512 : UInt32 := 4

def canSign : Algorithm → Bool
  | .ed25519 => true
  | .rsa _ => true
  | .ecdsa .nistP256 => true
  | .ecdsa .nistP384 => true
  | _ => false

variable (ssh : Ssh)

def toBiguint (mpint : Bytes) : Except SignError ℕ := (ssh.bigUint mpint).mapError .crypto

def signRsa (hash : HashAlg) (key : RsaPrivateKey) (data : Bytes) : Except SignError Bytes :=
  (ssh.signRsa hash key data).mapError .crypto

/-- The RSA components are converted here and the digest comes from the flags;
every other supported type signs through the library. -/
def signWithKey (key : PrivateKey) (data : Bytes) (flags : UInt32) :
    Except SignError Signature :=
  match key.keyData with
  | .rsa keypair => do
    let n ← toBiguint ssh keypair.n
    let e ← toBiguint ssh keypair.e
    let d ← toBiguint ssh keypair.d
    let p ← toBiguint ssh keypair.p
    let q ← toBiguint ssh keypair.q
    let rebuilt ← (ssh.rsaFromComponents n e d [p, q]).mapError .crypto
    if flags &&& RSA_SHA2_512 ≠ 0 then
      let signature ← signRsa ssh .sha512 rebuilt data
      (ssh.signatureNew "rsa-sha2-512" signature).mapError .crypto
    else if flags &&& RSA_SHA2_256 ≠ 0 then
      let signature ← signRsa ssh .sha256 rebuilt data
      (ssh.signatureNew "rsa-sha2-256" signature).mapError .crypto
    else .error .refusedSha1
  | .ed25519 _ => (ssh.trySign key data).mapError .crypto
  | .ecdsa _ _ => (ssh.trySign key data).mapError .crypto
  | .encrypted _ => .error (.unsupportedKeyType "unknown")
  | .other (.ok algorithm) => .error (.unsupportedKeyType (ssh.algorithmName algorithm))
  | .other (.error _) => .error (.unsupportedKeyType "unknown")

end LastpassSshAgent
