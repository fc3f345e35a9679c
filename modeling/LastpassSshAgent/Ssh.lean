import LastpassSshAgent.Text

/-!
# What the agent takes from its SSH and RSA libraries

Keys are data; parsing, encoding, decryption, signing and verification are the
libraries' and enter as the fields of `Ssh`.
-/

namespace LastpassSshAgent

inductive EcdsaCurve where
  | nistP256 | nistP384 | nistP521
  deriving DecidableEq, Repr

inductive HashAlg where
  | sha256 | sha512
  deriving DecidableEq, Repr

inductive Algorithm where
  | dsa
  | ecdsa (curve : EcdsaCurve)
  | ed25519
  | rsa (hash : Option HashAlg)
  | skEcdsaSha2NistP256
  | skEd25519
  | other (name : String)
  deriving DecidableEq, Repr

/-- The public half as it travels: the algorithm and the encoded components. -/
structure KeyData where
  algorithm : Algorithm
  blob : Bytes
  deriving DecidableEq, Repr

structure PublicKey where
  keyData : KeyData
  comment : String
  deriving DecidableEq, Repr

structure RsaKeypair where
  n : Bytes
  e : Bytes
  d : Bytes
  p : Bytes
  q : Bytes
  deriving DecidableEq, Repr

inductive KeypairData where
  | rsa (keypair : RsaKeypair)
  | ed25519 (secret : Bytes)
  | ecdsa (curve : EcdsaCurve) (secret : Bytes)
  | encrypted (ciphertext : Bytes)
  | other (algorithm : Except String Algorithm)
  deriving DecidableEq, Repr

/-- An OpenSSH private key carries its public half in the clear even while it is
encrypted. -/
structure PrivateKey where
  publicKey : PublicKey
  keyData : KeypairData
  deriving DecidableEq, Repr

def PrivateKey.isEncrypted (key : PrivateKey) : Bool :=
  match key.keyData with
  | .encrypted _ => true
  | _ => false

structure Signature where
  algorithm : String
  data : Bytes
  deriving DecidableEq, Repr

/-- An RSA private key as the RSA library rebuilds it. -/
structure RsaPrivateKey where
  n : ℕ
  e : ℕ
  d : ℕ
  primes : List ℕ
  deriving DecidableEq, Repr

/-- The library functions the agent calls, with the texts of their errors. -/
structure Ssh where
  algorithmName : Algorithm → String
  fingerprint : KeyData → String
  publicFromOpenssh : String → Except String PublicKey
  publicToOpenssh : PublicKey → String
  publicToBytes : PublicKey → Except String Bytes
  publicFromBytes : Bytes → Except String KeyData
  certificateFromBytes : Bytes → Except String KeyData
  signatureDecode : Bytes → Except String (Signature × Bytes)
  verify : KeyData → Bytes → Signature → Except String Unit
  privateFromOpenssh : Bytes → Except String PrivateKey
  decrypt : PrivateKey → Bytes → Except String PrivateKey
  trySign : PrivateKey → Bytes → Except String Signature
  signatureNew : String → Bytes → Except String Signature
  bigUint : Bytes → Except String ℕ
  rsaFromComponents : ℕ → ℕ → ℕ → List ℕ → Except String RsaPrivateKey
  signRsa : HashAlg → RsaPrivateKey → Bytes → Except String Bytes

/-- Decrypting checks the private half against the public one the file names, and
keeps the latter. -/
def Ssh.DecryptKeepsPublic (ssh : Ssh) : Prop :=
  ∀ key secret key', ssh.decrypt key secret = .ok key' →
    key'.publicKey.keyData = key.publicKey.keyData

/-- A public key's text reads back as that key, comment included. -/
def Ssh.PublicTextRoundTrips (ssh : Ssh) : Prop :=
  ∀ text key, ssh.publicFromOpenssh (trim text) = .ok key →
    ssh.publicFromOpenssh (trim (ssh.publicToOpenssh key)) = .ok key

def Ssh.RefusesNothing (ssh : Ssh) : Prop := ∀ key, ssh.publicFromOpenssh "" ≠ .ok key

end LastpassSshAgent
