import Mathlib.Data.Nat.Digits.Lemmas
import Mathlib.NumberTheory.LucasLehmer
import LastpassSshAgent.Builders
import LastpassSshAgent.Userauth

/-!
# Which of the advertised keys can be signed with

A key is advertised for the name of its algorithm. An RSA key is then signed with by a
library that looks at its numbers first, and takes only some of them.
-/

namespace LastpassSshAgent

/-! ### What is asked for -/

def HashAlg.signatureName : HashAlg → String
  | .sha256 => "rsa-sha2-256"
  | .sha512 => "rsa-sha2-512"

/-- The stronger one, where the flags name both. -/
def requestedHash (flags : UInt32) : Option HashAlg :=
  if flags &&& RSA_SHA2_512 ≠ 0 then some .sha512
  else if flags &&& RSA_SHA2_256 ≠ 0 then some .sha256
  else none

/-- The flags are about RSA keys only. -/
def requestedAlgorithm (ssh : Ssh) (algorithm : Algorithm) (flags : UInt32) : String :=
  match algorithm, requestedHash flags with
  | .rsa _, some hash => hash.signatureName
  | _, _ => ssh.algorithmName algorithm

/-! ### The libraries -/

/-- What the RSA library makes sure of before it takes a key, of whatever size. -/
structure RsaPrivateKey.Valid (key : RsaPrivateKey) : Prop where
  exponent : 2 ≤ key.e ∧ key.e ≤ 2 ^ 33 - 1
  below : key.e < key.n
  odd : key.n % 2 = 1 ∧ key.e % 2 = 1
  product : key.primes.prod = key.n
  inverse : ∀ p ∈ key.primes, key.d * key.e % (p - 1) = 1

theorem RsaPrivateKey.valid_iff (key : RsaPrivateKey) : key.Valid ↔
    (2 ≤ key.e ∧ key.e ≤ 2 ^ 33 - 1) ∧ key.e < key.n ∧ (key.n % 2 = 1 ∧ key.e % 2 = 1) ∧
      key.primes.prod = key.n ∧ ∀ p ∈ key.primes, key.d * key.e % (p - 1) = 1 :=
  ⟨fun h => ⟨h.1, h.2, h.3, h.4, h.5⟩,
    fun h => ⟨h.1, h.2.1, h.2.2.1, h.2.2.2.1, h.2.2.2.2⟩⟩

instance (key : RsaPrivateKey) : Decidable key.Valid := decidable_of_iff' _ key.valid_iff

/-- The bytes a digest takes once its name and the least of the padding are around it. -/
def HashAlg.paddedLength : HashAlg → ℕ
  | .sha256 => 19 + 32 + 11
  | .sha512 => 19 + 64 + 11

/-- The modulus has as many bytes as a padded digest. -/
def RsaPrivateKey.Holds (key : RsaPrivateKey) (hash : HashAlg) : Prop :=
  256 ^ (hash.paddedLength - 1) ≤ key.n

instance (key : RsaPrivateKey) (hash : HashAlg) : Decidable (key.Holds hash) :=
  inferInstanceAs (Decidable (_ ≤ _))

def rsaBlob (e n : Bytes) : Bytes := toBeBytes e.length ++ e ++ (toBeBytes n.length ++ n)

/-- A public and a private half of one kind. An RSA key has its modulus and its exponent in
both; of any other, `belongs` says which public half a secret gives. -/
inductive Pair (belongs : KeyData → Bytes → Prop) : KeyData → KeypairData → Prop
  | ed25519 {blob secret : Bytes} (h : belongs ⟨.ed25519, blob⟩ secret) :
      Pair belongs ⟨.ed25519, blob⟩ (.ed25519 secret)
  | ecdsa {curve : EcdsaCurve} {blob secret : Bytes} (h : belongs ⟨.ecdsa curve, blob⟩ secret) :
      Pair belongs ⟨.ecdsa curve, blob⟩ (.ecdsa curve secret)
  | rsa {hash : Option HashAlg} {keypair : RsaKeypair} :
      Pair belongs ⟨.rsa hash, rsaBlob keypair.e keypair.n⟩ (.rsa keypair)

def Ssh.Parsed (ssh : Ssh) (key : PrivateKey) : Prop :=
  (∃ pem, ssh.privateFromOpenssh pem = .ok key) ∨
    ∃ locked secret, ssh.decrypt locked secret = .ok key

structure Matches (ssh : Ssh) (belongs : KeyData → Bytes → Prop) (key : PrivateKey)
    (publicKey : PublicKey) : Prop where
  parsed : ssh.Parsed key
  same : key.publicKey.keyData = publicKey.keyData
  pair : Pair belongs key.publicKey.keyData key.keyData

/-- What the factors of an RSA key are, which the RSA library does not look at. -/
def TwoPrimes (p q : ℕ) : Prop := p.Prime ∧ q.Prime ∧ p ≠ q

/-- What is relied on of the libraries. `verifies` is the check made of a signature by
whoever asked for it. -/
structure SignsAsDocumented (ssh : Ssh) (belongs : KeyData → Bytes → Prop)
    (verifies : KeyData → Bytes → Signature → Prop) : Prop where
  /-- The SSH library signs with the types that are built into it. -/
  native : ∀ key data, ssh.Parsed key → Pair belongs key.publicKey.keyData key.keyData →
    key.publicKey.keyData.algorithm ∈ [.ed25519, .ecdsa .nistP256, .ecdsa .nistP384] →
      ∃ signature, ssh.trySign key data = .ok signature ∧
        signature.algorithm = ssh.algorithmName key.publicKey.keyData.algorithm ∧
        verifies key.publicKey.keyData data signature
  rebuilt : ∀ n e d p q key, ssh.rsaFromComponents n e d [p, q] = .ok key ↔
    key = ⟨n, e, d, [p, q]⟩ ∧ key.Valid
  /-- No key signs what its modulus has no room for. -/
  short : ∀ hash key data bytes, ssh.signRsa hash key data = .ok bytes → key.Holds hash
  /-- A key that was taken signs the rest if its factors are two primes. What it comes to with
  others is checked before it is handed over, and may be refused then. -/
  signs : ∀ hash n e d p q data, RsaPrivateKey.Valid ⟨n, e, d, [p, q]⟩ → TwoPrimes p q →
    RsaPrivateKey.Holds ⟨n, e, d, [p, q]⟩ hash →
      ∃ bytes, ssh.signRsa hash ⟨n, e, d, [p, q]⟩ data = .ok bytes
  named : ∀ hash : HashAlg, ∀ bytes,
    ssh.signatureNew hash.signatureName bytes = .ok ⟨hash.signatureName, bytes⟩
  verified : ∀ hash key data bytes e n digest, key.Valid →
    ssh.signRsa hash key data = .ok bytes → ssh.bigUint e = .ok key.e →
      ssh.bigUint n = .ok key.n →
        verifies ⟨.rsa digest, rsaBlob e n⟩ data ⟨hash.signatureName, bytes⟩

/-! ### Signing -/

/-- An RSA key's numbers are ones the library takes, with room for the digest asked for. -/
def Signable (ssh : Ssh) (key : PrivateKey) (flags : UInt32) : Prop :=
  ∀ keypair, key.keyData = .rsa keypair → ∃ n e d p q hash, ssh.bigUint keypair.n = .ok n ∧
    ssh.bigUint keypair.e = .ok e ∧ ssh.bigUint keypair.d = .ok d ∧
    ssh.bigUint keypair.p = .ok p ∧ ssh.bigUint keypair.q = .ok q ∧
    requestedHash flags = some hash ∧ RsaPrivateKey.Valid ⟨n, e, d, [p, q]⟩ ∧
    RsaPrivateKey.Holds ⟨n, e, d, [p, q]⟩ hash

def Factored (ssh : Ssh) (key : PrivateKey) : Prop :=
  ∀ keypair, key.keyData = .rsa keypair → ∀ p q, ssh.bigUint keypair.p = .ok p →
    ssh.bigUint keypair.q = .ok q → TwoPrimes p q

/-- The request is signed with the algorithm it asked for, and whoever asked can tell. -/
def SignedAsAsked (ssh : Ssh) (verifies : KeyData → Bytes → Signature → Prop) (key : PrivateKey)
    (keyData : KeyData) (data : Bytes) (flags : UInt32) : Prop :=
  ∃ signature, signWithKey ssh key data flags = .ok signature ∧
    signature.algorithm = requestedAlgorithm ssh keyData.algorithm flags ∧
    verifies keyData data signature

section

variable {ssh : Ssh} {belongs : KeyData → Bytes → Prop}
  {verifies : KeyData → Bytes → Signature → Prop} {key : PrivateKey}
  {publicKey : PublicKey} {data : Bytes} {flags : UInt32} {signature : Signature}

theorem signWithKey_rsa {keypair : RsaKeypair} (hkey : key.keyData = .rsa keypair) :
    signWithKey ssh key data flags = .ok signature ↔
      ∃ n e d p q rebuilt hash bytes, ssh.bigUint keypair.n = .ok n ∧
        ssh.bigUint keypair.e = .ok e ∧ ssh.bigUint keypair.d = .ok d ∧
        ssh.bigUint keypair.p = .ok p ∧ ssh.bigUint keypair.q = .ok q ∧
        ssh.rsaFromComponents n e d [p, q] = .ok rebuilt ∧ requestedHash flags = some hash ∧
        ssh.signRsa hash rebuilt data = .ok bytes ∧
        ssh.signatureNew hash.signatureName bytes = .ok signature := by
  have hlast : ∀ rebuilt, (if flags &&& RSA_SHA2_512 ≠ 0 then do
        let signature ← signRsa ssh .sha512 rebuilt data
        (ssh.signatureNew "rsa-sha2-512" signature).mapError .crypto
      else if flags &&& RSA_SHA2_256 ≠ 0 then do
        let signature ← signRsa ssh .sha256 rebuilt data
        (ssh.signatureNew "rsa-sha2-256" signature).mapError .crypto
      else .error .refusedSha1 : Except SignError Signature) = .ok signature ↔
        ∃ hash bytes, requestedHash flags = some hash ∧ ssh.signRsa hash rebuilt data = .ok bytes ∧
          ssh.signatureNew hash.signatureName bytes = .ok signature := by
    intro rebuilt
    rw [requestedHash]
    split_ifs with h512 h256
    · simp [bind_eq_ok, signRsa, mapError_eq_ok, HashAlg.signatureName]
    · simp [bind_eq_ok, signRsa, mapError_eq_ok, HashAlg.signatureName]
    · simp
  simp only [signWithKey, hkey, bind_eq_ok, toBiguint, mapError_eq_ok, hlast]
  grind

/-- A digest that the modulus has no room for is the end of the request. -/
theorem signWithKey_refused {keypair : RsaKeypair} (hkey : key.keyData = .rsa keypair)
    {n e d p q : ℕ} {rebuilt : RsaPrivateKey} {why : String} (hn : ssh.bigUint keypair.n = .ok n)
    (he : ssh.bigUint keypair.e = .ok e) (hd : ssh.bigUint keypair.d = .ok d)
    (hp : ssh.bigUint keypair.p = .ok p) (hq : ssh.bigUint keypair.q = .ok q)
    (hrebuilt : ssh.rsaFromComponents n e d [p, q] = .ok rebuilt)
    (hrefused : ssh.signRsa .sha512 rebuilt data = .error why) :
    signWithKey ssh key data RSA_SHA2_512 = .error (.crypto why) := by
  have hflag : RSA_SHA2_512 &&& RSA_SHA2_512 ≠ 0 := by decide
  simp only [signWithKey, hkey, toBiguint, hn, he, hd, hp, hq, Except.mapError, bind, Except.bind,
    hrebuilt, if_pos hflag, signRsa, hrefused]

theorem signable_of_signed (hlib : SignsAsDocumented ssh belongs verifies)
    (h : signWithKey ssh key data flags = .ok signature) : Signable ssh key flags := by
  intro keypair hkey
  obtain ⟨n, e, d, p, q, rebuilt, hash, bytes, hn, he, hd, hp, hq, hrebuilt, hhash, hbytes, -⟩ :=
    (signWithKey_rsa hkey).mp h
  obtain ⟨rfl, hvalid⟩ := (hlib.rebuilt n e d p q rebuilt).mp hrebuilt
  exact ⟨n, e, d, p, q, hash, hn, he, hd, hp, hq, hhash, hvalid, hlib.short hash _ data bytes hbytes⟩

theorem signed_of_signable (hlib : SignsAsDocumented ssh belongs verifies) {keypair : RsaKeypair}
    (hkey : key.keyData = .rsa keypair) (digest : Option HashAlg) (data : Bytes)
    (hfactors : Factored ssh key) (h : Signable ssh key flags) :
    SignedAsAsked ssh verifies key ⟨.rsa digest, rsaBlob keypair.e keypair.n⟩ data flags := by
  obtain ⟨n, e, d, p, q, hash, hn, he, hd, hp, hq, hhash, hvalid, hholds⟩ := h keypair hkey
  obtain ⟨bytes, hbytes⟩ :=
    hlib.signs hash n e d p q data hvalid (hfactors keypair hkey p q hp hq) hholds
  have hrebuilt := (hlib.rebuilt n e d p q _).mpr ⟨rfl, hvalid⟩
  refine ⟨⟨hash.signatureName, bytes⟩, (signWithKey_rsa hkey).mpr ⟨n, e, d, p, q, _, hash, bytes,
    hn, he, hd, hp, hq, hrebuilt, hhash, hbytes, hlib.named hash bytes⟩, ?_, ?_⟩
  · simp [requestedAlgorithm, hhash]
  · exact hlib.verified hash _ data bytes _ _ digest hvalid hbytes he hn

theorem signs_native (hlib : SignsAsDocumented ssh belongs verifies)
    (hmatch : Matches ssh belongs key publicKey)
    (halgorithm : publicKey.keyData.algorithm ∈ [.ed25519, .ecdsa .nistP256, .ecdsa .nistP384]) :
    ∃ signature, signWithKey ssh key data flags = .ok signature ∧
      signature.algorithm = ssh.algorithmName publicKey.keyData.algorithm ∧
      verifies publicKey.keyData data signature := by
  obtain ⟨signature, hsign, hname, hverifies⟩ := hlib.native key data hmatch.parsed hmatch.pair
    (hmatch.same ▸ halgorithm)
  rw [hmatch.same] at hname hverifies
  refine ⟨signature, ?_, hname, hverifies⟩
  have hpair := hmatch.pair
  rw [hmatch.same] at hpair
  generalize hdata : publicKey.keyData = keyData at hpair halgorithm
  generalize hsecret : key.keyData = secret at hpair
  cases hpair with
  | ed25519 => simp only [signWithKey, hsecret, hsign, Except.mapError]
  | ecdsa => simp only [signWithKey, hsecret, hsign, Except.mapError]
  | rsa => simp at halgorithm

theorem mem_native_of_canSign {algorithm : Algorithm} (h : canSign algorithm = true)
    (hrsa : ∀ digest, algorithm ≠ .rsa digest) :
    algorithm ∈ [.ed25519, .ecdsa .nistP256, .ecdsa .nistP384] := by
  match algorithm with
  | .rsa digest => exact absurd rfl (hrsa digest)
  | .ed25519 => simp
  | .ecdsa .nistP256 => simp
  | .ecdsa .nistP384 => simp

theorem requestedAlgorithm_of_ne {algorithm : Algorithm} (h : ∀ digest, algorithm ≠ .rsa digest) :
    requestedAlgorithm ssh algorithm flags = ssh.algorithmName algorithm := by
  cases algorithm with
  | rsa digest => exact absurd rfl (h digest)
  | _ => rfl

end

/-! ### Keys on either side of the line -/

namespace Sample

def base64Char (n : ℕ) : Char :=
  "ABCDEFGHIJKLMNOPQRSTUVWXYZabcdefghijklmnopqrstuvwxyz0123456789+/".toList.getD n '='

def base64 : Bytes → List Char
  | a :: b :: c :: rest =>
    let n := a.toNat * 65536 + b.toNat * 256 + c.toNat
    [n / 262144, n / 4096 % 64, n / 64 % 64, n % 64].map base64Char ++ base64 rest
  | [a, b] =>
    let n := a.toNat * 65536 + b.toNat * 256
    [n / 262144, n / 4096 % 64, n / 64 % 64, 64].map base64Char
  | [a] => [a.toNat / 4, a.toNat % 4 * 16, 64, 64].map base64Char
  | [] => []

/-- Of the least length, with a zero ahead of a byte that would make it negative. -/
def mpint (n : ℕ) : Bytes :=
  let digits := ((Nat.digits 256 n).map UInt8.ofNat).reverse
  if digits.head?.any (0x80 ≤ ·) then 0 :: digits else digits

def positive (mpint : Bytes) : Except String ℕ :=
  if mpint.head?.any (· < 0x80) then .ok (Nat.ofDigits 256 (mpint.reverse.map UInt8.toNat))
  else .error "cryptographic error"

/-- The RSA key of the primes `2 ^ a - 1` and `2 ^ b - 1`, where `k` times the product of
what is one less than they are is one short of a multiple of the exponent. -/
def mersenneKey (a b k : ℕ) : RsaPrivateKey where
  n := (2 ^ a - 1) * (2 ^ b - 1)
  e := 65537
  d := (k * ((2 ^ a - 1 - 1) * (2 ^ b - 1 - 1)) + 1) / 65537
  primes := [2 ^ a - 1, 2 ^ b - 1]

def rsaPublic (key : RsaPrivateKey) : PublicKey where
  keyData := ⟨.rsa none, rsaBlob (mpint key.e) (mpint key.n)⟩
  comment := "work"

def rsaKeypair (key : RsaPrivateKey) : RsaKeypair where
  n := mpint key.n
  e := mpint key.e
  d := mpint key.d
  p := mpint (key.primes.getD 0 0)
  q := mpint (key.primes.getD 1 0)

def rsaPrivate (key : RsaPrivateKey) : PrivateKey where
  publicKey := rsaPublic key
  keyData := .rsa (rsaKeypair key)

def rsaText (key : RsaPrivateKey) : String :=
  String.ofList ("ssh-rsa ".toList ++
    base64 (toBeBytes 7 ++ utf8 "ssh-rsa" ++ (rsaPublic key).keyData.blob) ++ " work".toList)

def fromComponents (n e d : ℕ) (primes : List ℕ) : Except String RsaPrivateKey :=
  if RsaPrivateKey.Valid ⟨n, e, d, primes⟩ then .ok ⟨n, e, d, primes⟩ else .error "invalid key"

def rsaSsh (key : RsaPrivateKey) : Ssh :=
  { ssh with
    algorithmName := fun algorithm =>
      match algorithm with
      | .rsa _ => "ssh-rsa"
      | _ => "ssh-ed25519"
    publicFromOpenssh := fun text =>
      if text = rsaText key then .ok (rsaPublic key) else ssh.publicFromOpenssh text
    privateFromOpenssh := fun pem =>
      if pem = [3] then .ok (rsaPrivate key) else ssh.privateFromOpenssh pem
    bigUint := positive
    rsaFromComponents := fromComponents
    signRsa := fun hash key data =>
      if key.Holds hash then .ok data else .error "message too long" }

def belongs (_ : KeyData) (_ : Bytes) : Prop := True

def verifies (key : KeyData) (data : Bytes) (signature : Signature) : Prop :=
  ssh.verify key data signature = .ok ()

theorem value_digits (n : ℕ) :
    Nat.ofDigits 256 (((Nat.digits 256 n).map UInt8.ofNat).map UInt8.toNat) = n := by
  have hdigits : ((Nat.digits 256 n).map UInt8.ofNat).map UInt8.toNat = Nat.digits 256 n := by
    rw [List.map_map]
    refine (List.map_congr_left fun d hd => ?_).trans (List.map_id _)
    exact UInt8.toNat_ofNat_of_lt' (Nat.digits_lt_base (by decide) hd)
  rw [hdigits, Nat.ofDigits_digits]

theorem positive_mpint {n : ℕ} (h : 0 < n) : positive (mpint n) = .ok n := by
  have hne : ((Nat.digits 256 n).map UInt8.ofNat).reverse ≠ [] := by
    rw [Ne, List.reverse_eq_nil_iff, List.map_eq_nil_iff]
    exact Nat.digits_ne_nil_iff_ne_zero.mpr (Nat.ne_of_gt h)
  have hvalue := value_digits n
  rw [mpint]
  generalize hdigits : (Nat.digits 256 n).map UInt8.ofNat = digits at hne hvalue
  by_cases hhigh : digits.reverse.head?.any (0x80 ≤ ·) = true
  · rw [if_pos hhigh, positive, if_pos (by rfl), List.reverse_cons, List.reverse_reverse,
      List.map_append, Nat.ofDigits_append, hvalue]
    rfl
  · obtain ⟨first, rest, hcons⟩ := List.exists_cons_of_ne_nil hne
    have hlow : digits.reverse.head?.any (· < 0x80) = true := by
      rw [hcons] at hhigh ⊢
      simpa using hhigh
    rw [if_neg hhigh, positive, if_pos hlow, List.reverse_reverse, hvalue]

theorem fromComponents_eq_ok (n e d p q : ℕ) (key : RsaPrivateKey) :
    fromComponents n e d [p, q] = .ok key ↔ key = ⟨n, e, d, [p, q]⟩ ∧ key.Valid := by
  unfold fromComponents
  by_cases hvalid : RsaPrivateKey.Valid ⟨n, e, d, [p, q]⟩
  · rw [if_pos hvalid]
    constructor
    · intro h
      obtain rfl := Except.ok.inj h
      exact ⟨rfl, hvalid⟩
    · rintro ⟨rfl, -⟩
      rfl
  · rw [if_neg hvalid]
    refine iff_of_false nofun fun h => ?_
    obtain ⟨rfl, hvalid'⟩ := h
    exact hvalid hvalid'

section

variable (key : RsaPrivateKey)

theorem rsa_documented : SignsAsDocumented (rsaSsh key) belongs verifies where
  native key' data _ _ halgorithm := by
    refine ⟨⟨"ssh-ed25519", data⟩, rfl, ?_, if_pos rfl⟩
    simp only [List.mem_cons, List.not_mem_nil, or_false] at halgorithm
    rcases halgorithm with h | h | h
    · rw [h]
      rfl
    · rw [h]
      rfl
    · rw [h]
      rfl
  rebuilt n e d p q key' := by
    dsimp only [rsaSsh]
    exact fromComponents_eq_ok n e d p q key'
  short hash key' data bytes hsign := by
    have hbytes : (if key'.Holds hash then .ok data else .error "message too long") =
        (Except.ok bytes : Except String Bytes) := hsign
    split_ifs at hbytes with hholds
    exact hholds
  signs hash n e d p q data _ _ hholds := ⟨data, if_pos hholds⟩
  named hash bytes := rfl
  verified hash key' data bytes e n digest _ hsign _ _ := by
    have hbytes : (if key'.Holds hash then .ok data else .error "message too long") =
        (Except.ok bytes : Except String Bytes) := hsign
    split_ifs at hbytes
    obtain rfl := Except.ok.inj hbytes
    exact if_pos rfl

theorem matches_rsa : Matches (rsaSsh key) belongs (rsaPrivate key) (rsaPublic key) where
  parsed := by
    have hread : (rsaSsh key).privateFromOpenssh [3] = .ok (rsaPrivate key) := rfl
    exact .inl ⟨[3], hread⟩
  same := rfl
  pair := @Pair.rsa belongs none (rsaKeypair key)

theorem trim_rsaText : trim (rsaText key) = rsaText key := by
  unfold rsaText
  rw [trim, String.toList_ofList]
  generalize base64 (toBeBytes 7 ++ utf8 "ssh-rsa" ++ (rsaPublic key).keyData.blob) = middle
  have hfront : ("ssh-rsa ".toList ++ middle ++ " work".toList).dropWhile isWhitespace =
      "ssh-rsa ".toList ++ middle ++ " work".toList :=
    List.dropWhile_cons_of_neg (by decide)
  have hback : trimEnd ("ssh-rsa ".toList ++ middle ++ " work".toList) =
      "ssh-rsa ".toList ++ middle ++ " work".toList := by
    have hsplit : " work".toList = " wor".toList ++ ['k'] := rfl
    rw [trimEnd, hsplit, ← List.append_assoc, List.reverse_concat,
      List.dropWhile_cons_of_neg (by decide), ← List.reverse_concat, List.reverse_reverse]
  rw [hfront, hback]

theorem accept_rsa : accept (rsaSsh key) (utf8 (rsaText key)) = .ok (rsaPublic key) := by
  have hsome : (utf8 (rsaText key)).isEmpty = false := by
    rw [List.isEmpty_eq_false_iff]
    intro hempty
    have htext := utf8_eq_nil hempty
    unfold rsaText at htext
    rw [← String.toList_eq_nil_iff, String.toList_ofList] at htext
    simp at htext
  have hread : (rsaSsh key).publicFromOpenssh (rsaText key) = .ok (rsaPublic key) := if_pos rfl
  have hsign : canSign (rsaPublic key).keyData.algorithm = true := rfl
  rw [accept, hsome, fromUtf8Lossy_utf8, trim_rsaText, hread]
  simp [hsign]

theorem rsaKeypair_p {p q : ℕ} (hprimes : key.primes = [p, q]) : (rsaKeypair key).p = mpint p := by
  rw [rsaKeypair, hprimes]
  rfl

theorem rsaKeypair_q {p q : ℕ} (hprimes : key.primes = [p, q]) : (rsaKeypair key).q = mpint q := by
  rw [rsaKeypair, hprimes]
  rfl

theorem bigUint_rsaKeypair {p q : ℕ} (hprimes : key.primes = [p, q]) (hn : 0 < key.n)
    (he : 0 < key.e) (hd : 0 < key.d) (hp : 0 < p) (hq : 0 < q) :
    (rsaSsh key).bigUint (rsaKeypair key).n = .ok key.n ∧
      (rsaSsh key).bigUint (rsaKeypair key).e = .ok key.e ∧
      (rsaSsh key).bigUint (rsaKeypair key).d = .ok key.d ∧
      (rsaSsh key).bigUint (rsaKeypair key).p = .ok p ∧
      (rsaSsh key).bigUint (rsaKeypair key).q = .ok q := by
  refine ⟨positive_mpint hn, positive_mpint he, positive_mpint hd, ?_, ?_⟩
  · rw [rsaKeypair_p key hprimes]
    exact positive_mpint hp
  · rw [rsaKeypair_q key hprimes]
    exact positive_mpint hq

theorem signable_rsa {p q : ℕ} (hprimes : key.primes = [p, q]) (hd : 0 < key.d) (hp : 0 < p)
    (hq : 0 < q) (hvalid : key.Valid) {flags : UInt32} {hash : HashAlg}
    (hhash : requestedHash flags = some hash) (hholds : key.Holds hash) :
    Signable (rsaSsh key) (rsaPrivate key) flags := by
  intro keypair hkeypair
  obtain rfl := KeypairData.rsa.inj hkeypair
  have he : 0 < key.e := Nat.lt_of_lt_of_le (by decide) hvalid.exponent.1
  obtain ⟨hn', he', hd', hp', hq'⟩ :=
    bigUint_rsaKeypair key hprimes (Nat.lt_trans he hvalid.below) he hd hp hq
  have hkey : key = ⟨key.n, key.e, key.d, [p, q]⟩ := by rw [← hprimes]
  exact ⟨key.n, key.e, key.d, p, q, hash, hn', he', hd', hp', hq', hhash, hkey ▸ hvalid,
    hkey ▸ hholds⟩

theorem refused_rsa {p q : ℕ} (hprimes : key.primes = [p, q]) (hd : 0 < key.d) (hp : 0 < p)
    (hq : 0 < q) (hvalid : key.Valid) (hshort : ¬ key.Holds .sha512) (data : Bytes) :
    signWithKey (rsaSsh key) (rsaPrivate key) data RSA_SHA2_512 =
      .error (.crypto "message too long") := by
  have he : 0 < key.e := Nat.lt_of_lt_of_le (by decide) hvalid.exponent.1
  obtain ⟨hn', he', hd', hp', hq'⟩ :=
    bigUint_rsaKeypair key hprimes (Nat.lt_trans he hvalid.below) he hd hp hq
  have hkey : key = ⟨key.n, key.e, key.d, [p, q]⟩ := by rw [← hprimes]
  have hrebuilt : (rsaSsh key).rsaFromComponents key.n key.e key.d [p, q] = .ok key :=
    ((rsa_documented key).rebuilt ..).mpr ⟨hkey, hvalid⟩
  exact signWithKey_refused rfl hn' he' hd' hp' hq' hrebuilt (if_neg hshort)

theorem factored_rsa {p q : ℕ} (hprimes : key.primes = [p, q]) (hfactors : TwoPrimes p q) :
    Factored (rsaSsh key) (rsaPrivate key) := by
  intro keypair hkeypair p' q' hp' hq'
  obtain rfl := KeypairData.rsa.inj hkeypair
  rw [rsaKeypair_p key hprimes] at hp'
  rw [rsaKeypair_q key hprimes] at hq'
  obtain rfl := Except.ok.inj ((positive_mpint hfactors.1.pos).symm.trans hp')
  obtain rfl := Except.ok.inj ((positive_mpint hfactors.2.1.pos).symm.trans hq')
  exact hfactors

end

/-! The factors, by the test for primes of their kind. -/

theorem prime_127 : (2 ^ 127 - 1).Prime := lucas_lehmer_sufficiency 127 (by decide) (by norm_num)

theorem prime_521 : (2 ^ 521 - 1).Prime := lucas_lehmer_sufficiency 521 (by decide) (by norm_num)

theorem prime_607 : (2 ^ 607 - 1).Prime := lucas_lehmer_sufficiency 607 (by decide) (by norm_num)

def smallKey : RsaPrivateKey := mersenneKey 521 607 10880

def shortKey : RsaPrivateKey := mersenneKey 607 127 36409

theorem smallKey_valid : smallKey.Valid := by decide +kernel

theorem shortKey_valid : shortKey.Valid := by decide +kernel

theorem smallKey_factors : TwoPrimes (2 ^ 521 - 1) (2 ^ 607 - 1) :=
  ⟨prime_521, prime_607, by decide +kernel⟩

theorem shortKey_factors : TwoPrimes (2 ^ 607 - 1) (2 ^ 127 - 1) :=
  ⟨prime_607, prime_127, by decide +kernel⟩

end Sample

end LastpassSshAgent
