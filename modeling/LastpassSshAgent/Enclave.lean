import LastpassSshAgent.Framing.Exact
import LastpassSshAgent.Identities
import LastpassSshAgent.Unlock
import LastpassSshAgent.Userauth

/-!
# What is kept behind the Secure Enclave

The master password is padded to a block of one length, and the wrapped key and the
ciphertext of that block are kept in a file with a format of its own. A file is read back
only when it is just what would be written.
-/

namespace LastpassSshAgent.Enclave

open Framing

/-! ### The file -/

def MAX_BLOB : ℕ := 4096

def MAX_CIPHER : ℕ := 4096

def MAGIC : Bytes := utf8 "lastpass-ssh-agent secure enclave v2\n"

def malformed (why : String) : Error :=
  .state s!"the stored Secure Enclave key is unreadable ({why}) — run `lastpass-ssh-agent store-master-password` again"

@[ext]
structure Stored where
  blob : Bytes
  cipher : Bytes
  deriving DecidableEq, Repr

/-- One value after its length, if it is no longer than it may be. -/
def put (out : Bytes) (part : Bytes × ℕ) : Except Error Bytes :=
  if part.2 < part.1.length then .error (malformed "a value larger than this format holds")
  else .ok (out ++ toBeBytes part.1.length ++ part.1)

def Stored.encode (stored : Stored) : Except Error Bytes :=
  [(stored.blob, MAX_BLOB), (stored.cipher, MAX_CIPHER)].foldlM put MAGIC

def splitAtChecked (bytes : Bytes) (n : ℕ) : Option (Bytes × Bytes) :=
  if n ≤ bytes.length then some (bytes.take n, bytes.drop n) else none

/-- One value, and what is left after it. -/
def take (bytes : Bytes) (max : ℕ) : Except Error (Bytes × Bytes) :=
  match splitAtChecked bytes 4 with
  | none => .error (malformed "truncated length")
  | some (header, rest) =>
    let len := Wire.fromBeBytes header
    if max < len then .error (malformed "a length larger than anything this writes")
    else
      match splitAtChecked rest len with
      | none => .error (malformed "truncated value")
      | some (value, rest) => .ok (value, rest)

def stripMagic (bytes : Bytes) : Except Error Bytes :=
  if MAGIC.isPrefixOf bytes then .ok (bytes.drop MAGIC.length)
  else .error (malformed "not this agent's Secure Enclave file")

def Stored.decode (bytes : Bytes) : Except Error Stored := do
  let rest ← stripMagic bytes
  let (blob, rest) ← take rest MAX_BLOB
  let (cipher, rest) ← take rest MAX_CIPHER
  if rest ≠ [] then .error (malformed "trailing bytes") else .ok ⟨blob, cipher⟩

/-- One byte past the largest file there can be. -/
def LIMIT : ℕ := MAGIC.length + 8 + MAX_BLOB + MAX_CIPHER + 1

def load (path : String) (file : File) : Except Error (Option Stored) := do
  match ← Identities.openRegular path file with
  | none => .ok none
  | some bytes =>
    match Stored.decode (bytes.take LIMIT) with
    | .ok stored => .ok (some stored)
    | .error _ => .ok none

/-! ### What is written is what is read -/

def Stored.layout (stored : Stored) : Bytes :=
  MAGIC ++ (toBeBytes stored.blob.length ++ (stored.blob ++
    (toBeBytes stored.cipher.length ++ stored.cipher)))

def Stored.Fits (stored : Stored) : Prop :=
  stored.blob.length ≤ MAX_BLOB ∧ stored.cipher.length ≤ MAX_CIPHER

theorem encode_eq_ok {stored : Stored} {bytes : Bytes} :
    stored.encode = .ok bytes ↔ stored.Fits ∧ bytes = stored.layout := by
  rw [Stored.encode, List.foldlM_cons, put, Stored.Fits, Stored.layout]
  dsimp only
  by_cases hblob : stored.blob.length ≤ MAX_BLOB
  · rw [if_neg (by omega)]
    change List.foldlM put _ _ = _ ↔ _
    rw [List.foldlM_cons, put]
    dsimp only
    by_cases hcipher : stored.cipher.length ≤ MAX_CIPHER
    · rw [if_neg (by omega)]
      change Except.ok _ = Except.ok bytes ↔ _
      simp [hblob, hcipher, eq_comm]
    · rw [if_pos (by omega)]
      exact iff_of_false nofun fun h => hcipher h.1.2
  · rw [if_pos (by omega)]
    exact iff_of_false nofun fun h => hblob h.1.1

theorem eq_cons_of_four_le {bytes : Bytes} (h : 4 ≤ bytes.length) :
    ∃ a b c d tail, bytes = a :: b :: c :: d :: tail := by
  rcases bytes with _ | ⟨a, _ | ⟨b, _ | ⟨c, _ | ⟨d, tail⟩⟩⟩⟩
  · simp at h
  · simp at h
  · simp at h
  · simp at h
  · exact ⟨a, b, c, d, tail, rfl⟩

theorem take_eq_ok {bytes value rest : Bytes} {max : ℕ} (hmax : max < 2 ^ 32) :
    take bytes max = .ok (value, rest) ↔
      value.length ≤ max ∧ bytes = toBeBytes value.length ++ (value ++ rest) := by
  unfold take splitAtChecked
  by_cases hlength : 4 ≤ bytes.length
  · rw [if_pos hlength]
    obtain ⟨a, b, c, d, tail, rfl⟩ := eq_cons_of_four_le hlength
    have hlayout : a :: b :: c :: d :: tail = toBeBytes value.length ++ (value ++ rest) ↔
        [a, b, c, d] = toBeBytes value.length ∧ tail = value ++ rest := by
      simp [toBeBytes, and_assoc]
    rw [hlayout]
    dsimp only [List.take, List.drop]
    by_cases hcap : max < Wire.fromBeBytes [a, b, c, d]
    · rw [if_pos hcap]
      refine iff_of_false (by simp) ?_
      rintro ⟨hle, hheader, -⟩
      rw [hheader, fromBeBytes_toBeBytes (by omega)] at hcap
      omega
    · rw [if_neg hcap]
      by_cases htail : Wire.fromBeBytes [a, b, c, d] ≤ tail.length
      · rw [if_pos htail]
        simp only [Except.ok.injEq, Prod.mk.injEq]
        constructor
        · rintro ⟨rfl, rfl⟩
          rw [List.length_take_of_le htail]
          exact ⟨by omega, (toBeBytes_fromBeBytes a b c d).symm, (List.take_append_drop ..).symm⟩
        · rintro ⟨hle, hheader, rfl⟩
          rw [hheader, fromBeBytes_toBeBytes (by omega)]
          exact ⟨List.take_left, List.drop_left⟩
      · rw [if_neg htail]
        refine iff_of_false (by simp) ?_
        rintro ⟨hle, hheader, rfl⟩
        rw [hheader, fromBeBytes_toBeBytes (by omega), List.length_append] at htail
        omega
  · rw [if_neg hlength]
    refine iff_of_false (by simp) ?_
    rintro ⟨-, rfl⟩
    exact hlength (by simp [toBeBytes])

theorem stripMagic_eq_ok {bytes rest : Bytes} : stripMagic bytes = .ok rest ↔ bytes = MAGIC ++ rest := by
  rw [stripMagic]
  split_ifs with hmagic
  · obtain ⟨tail, rfl⟩ := List.isPrefixOf_iff_prefix.mp hmagic
    simp
  · refine iff_of_false nofun ?_
    rintro rfl
    exact hmagic (List.isPrefixOf_iff_prefix.mpr (List.prefix_append _ _))

theorem caps_lt : MAX_BLOB < 2 ^ 32 ∧ MAX_CIPHER < 2 ^ 32 := by decide

theorem decode_eq_ok {stored : Stored} {bytes : Bytes} :
    Stored.decode bytes = .ok stored ↔ stored.Fits ∧ bytes = stored.layout := by
  unfold Stored.decode
  simp only [bind_eq_ok, Prod.exists, stripMagic_eq_ok, take_eq_ok caps_lt.1, take_eq_ok caps_lt.2]
  constructor
  · rintro ⟨_, rfl, blob, _, ⟨hblob, rfl⟩, cipher, rest, ⟨hcipher, rfl⟩, h⟩
    split_ifs at h with hrest
    obtain rfl := Except.ok.inj h
    obtain rfl := not_not.mp hrest
    exact ⟨⟨hblob, hcipher⟩, by simp [Stored.layout]⟩
  · rintro ⟨⟨hblob, hcipher⟩, rfl⟩
    exact ⟨_, rfl, stored.blob, _, ⟨hblob, rfl⟩, stored.cipher, [], ⟨hcipher, by simp⟩, rfl⟩

theorem stored_exact : Exact Stored.encode Stored.decode := fun _ _ =>
  decode_eq_ok.trans encode_eq_ok.symm

theorem length_lt_limit {stored : Stored} {bytes : Bytes} (h : stored.encode = .ok bytes) :
    bytes.length < LIMIT := by
  obtain ⟨⟨hblob, hcipher⟩, rfl⟩ := encode_eq_ok.mp h
  have hlayout : stored.layout.length =
      MAGIC.length + 8 + stored.blob.length + stored.cipher.length := by
    simp only [Stored.layout, toBeBytes, List.length_append, List.length_cons, List.length_nil]
    omega
  rw [hlayout, LIMIT]
  omega

theorem load_regular {path : String} {bytes : Bytes} {stored : Stored} :
    load path (.regular bytes) = .ok (some stored) ↔ stored.encode = .ok bytes := by
  rw [← stored_exact.decode_take (fun _ _ => length_lt_limit) stored bytes]
  change (match Stored.decode (bytes.take LIMIT) with
    | .ok stored => Except.ok (some stored)
    | .error _ => Except.ok none) = (Except.ok (some stored) : Except Error _) ↔ _
  cases Stored.decode (bytes.take LIMIT) with
  | error e => exact iff_of_false nofun nofun
  | ok stored' => simp

/-! ### The block -/

/-- How an index or an `expect` can go wrong. -/
inductive BlockPanic where
  | index (i length : ℕ)
  | range (stop length : ℕ)
  | expect (why : String)
  deriving DecidableEq, Repr

def PADDED_LEN : ℕ := 2 + MAX_PASSPHRASE_BYTES

def index (block : Bytes) (i : ℕ) : Except BlockPanic UInt8 :=
  if h : i < block.length then .ok block[i] else .error (.index i block.length)

/-- `block[start..start + bytes.len()].copy_from_slice(bytes)`. -/
def copyFromSlice (block : Bytes) (start : ℕ) (bytes : Bytes) : Except BlockPanic Bytes :=
  if start + bytes.length ≤ block.length then
    .ok (block.take start ++ bytes ++ block.drop (start + bytes.length))
  else .error (.range (start + bytes.length) block.length)

/-- `block.copy_within(start..stop, dest)`. -/
def copyWithin (block : Bytes) (start stop dest : ℕ) : Except BlockPanic Bytes :=
  if start ≤ stop ∧ stop ≤ block.length ∧ dest + (stop - start) ≤ block.length then
    .ok (block.take dest ++ (block.drop start).take (stop - start) ++
      block.drop (dest + (stop - start)))
  else .error (.range stop block.length)

def u16 (n : ℕ) : Except BlockPanic Bytes :=
  if n < 2 ^ 16 then .ok [.ofNat (n / 2 ^ 8), .ofNat n]
  else .error (.expect "the cap just checked is far below u16::MAX")

def pad (secret : Bytes) : Except BlockPanic (Except Error Bytes) :=
  if MAX_PASSPHRASE_BYTES < secret.length then
    .ok (.error (.state
      s!"a master password longer than {MAX_PASSPHRASE_BYTES} bytes cannot be stored"))
  else do
    let len ← u16 secret.length
    let block ← copyFromSlice (List.replicate PADDED_LEN 0) 0 len
    let block ← copyFromSlice block 2 secret
    .ok (.ok block)

/-- Take one back out again, in place. -/
def unpad (padded : Bytes) : Except BlockPanic (Except Error Bytes) :=
  if padded.length ≠ PADDED_LEN then .ok (.error (malformed "not a block this wrote"))
  else do
    let high ← index padded 0
    let low ← index padded 1
    let len := Wire.fromBeBytes [high, low]
    if MAX_PASSPHRASE_BYTES < len then
      .ok (.error (malformed "a length larger than anything this stores"))
    else do
      let padded ← copyWithin padded 2 (2 + len) 0
      .ok (.ok (padded.take len))

def header (n : ℕ) : Bytes := [.ofNat (n / 2 ^ 8), .ofNat n]

/-- The block of a secret: its length, itself, and zeros. -/
def block (secret : Bytes) : Bytes :=
  header secret.length ++ (secret ++ List.replicate (MAX_PASSPHRASE_BYTES - secret.length) 0)

theorem fromBeBytes_two (a b : UInt8) : Wire.fromBeBytes [a, b] = a.toNat * 2 ^ 8 + b.toNat := by
  simp only [Wire.fromBeBytes, List.foldl_cons, List.foldl_nil]
  omega

theorem fromBeBytes_header {n : ℕ} (h : n < 2 ^ 16) : Wire.fromBeBytes (header n) = n := by
  rw [header, fromBeBytes_two]
  simp only [UInt8.toNat_ofNat']
  omega

theorem header_fromBeBytes (a b : UInt8) : header (Wire.fromBeBytes [a, b]) = [a, b] := by
  have ha := a.toNat_lt
  have hb := b.toNat_lt
  rw [fromBeBytes_two, header]
  simp only [List.cons.injEq, ← UInt8.toNat_inj, UInt8.toNat_ofNat', and_true]
  omega

theorem max_lt : MAX_PASSPHRASE_BYTES < 2 ^ 16 := by decide

theorem length_block {secret : Bytes} (h : secret.length ≤ MAX_PASSPHRASE_BYTES) :
    (block secret).length = PADDED_LEN := by
  simp only [block, header, List.length_append, List.length_cons, List.length_nil,
    List.length_replicate, PADDED_LEN]
  omega

theorem pad_eq {secret : Bytes} (h : secret.length ≤ MAX_PASSPHRASE_BYTES) :
    pad secret = .ok (.ok (block secret)) := by
  have hlen : u16 secret.length = .ok (header secret.length) :=
    if_pos (Nat.lt_of_le_of_lt h max_lt)
  have hfirst : copyFromSlice (List.replicate PADDED_LEN 0) 0 (header secret.length) =
      .ok (header secret.length ++ List.replicate MAX_PASSPHRASE_BYTES 0) := by
    simp [copyFromSlice, header, PADDED_LEN]
  have hsecond : copyFromSlice (header secret.length ++ List.replicate MAX_PASSPHRASE_BYTES 0) 2
      secret = .ok (block secret) := by
    simp [copyFromSlice, header, block, h, Nat.add_comm 2]
  rw [pad, if_neg (by omega)]
  exact bind_eq_ok.mpr ⟨_, hlen, bind_eq_ok.mpr ⟨_, hfirst, bind_eq_ok.mpr ⟨_, hsecond, rfl⟩⟩⟩

theorem unpad_cons {high low : UInt8} {tail : Bytes} (htail : tail.length = MAX_PASSPHRASE_BYTES) :
    unpad (high :: low :: tail) = .ok (if MAX_PASSPHRASE_BYTES < Wire.fromBeBytes [high, low] then
      .error (malformed "a length larger than anything this stores")
      else .ok (tail.take (Wire.fromBeBytes [high, low]))) := by
  have hlength : (high :: low :: tail).length = PADDED_LEN := by
    rw [List.length_cons, List.length_cons, htail, PADDED_LEN]
    omega
  rw [unpad, if_neg (not_not.mpr hlength)]
  refine bind_eq_ok.mpr ⟨high, rfl, bind_eq_ok.mpr ⟨low, rfl, ?_⟩⟩
  by_cases hlong : MAX_PASSPHRASE_BYTES < Wire.fromBeBytes [high, low]
  · rw [if_pos hlong, if_pos hlong]
  · have hmoved : copyWithin (high :: low :: tail) 2 (2 + Wire.fromBeBytes [high, low]) 0 =
        .ok (tail.take (Wire.fromBeBytes [high, low]) ++
          (high :: low :: tail).drop (Wire.fromBeBytes [high, low])) := by
      rw [copyWithin, if_pos (by simp only [List.length_cons]; omega)]
      simp
    rw [if_neg hlong, if_neg hlong]
    refine bind_eq_ok.mpr ⟨_, hmoved, ?_⟩
    rw [List.take_left' (List.length_take_of_le (by omega))]

theorem unpad_spec (padded : Bytes) : ∃ result, unpad padded = .ok result ∧
    ∀ secret, result = .ok secret ↔ padded.length = PADDED_LEN ∧
      secret.length ≤ MAX_PASSPHRASE_BYTES ∧
      ∃ rest, padded = header secret.length ++ (secret ++ rest) := by
  by_cases hlength : padded.length = PADDED_LEN
  · match padded, hlength with
    | high :: low :: tail, hlength =>
      have htail : tail.length = MAX_PASSPHRASE_BYTES := by
        rw [PADDED_LEN, List.length_cons, List.length_cons] at hlength
        omega
      refine ⟨_, unpad_cons htail, fun secret => ?_⟩
      have hlayout : (∃ rest, high :: low :: tail = header secret.length ++ (secret ++ rest)) ↔
          [high, low] = header secret.length ∧ ∃ rest, tail = secret ++ rest := by
        simp [header, and_assoc]
      rw [hlayout]
      split_ifs with hlong
      · refine iff_of_false nofun ?_
        rintro ⟨-, hshort, hheader, -⟩
        rw [hheader, fromBeBytes_header (Nat.lt_of_le_of_lt hshort max_lt)] at hlong
        omega
      · rw [Except.ok.injEq]
        constructor
        · rintro rfl
          rw [List.length_take_of_le (by omega)]
          exact ⟨hlength, by omega, (header_fromBeBytes high low).symm, _,
            (List.take_append_drop ..).symm⟩
        · rintro ⟨-, hshort, hheader, rest, rfl⟩
          rw [hheader, fromBeBytes_header (Nat.lt_of_le_of_lt hshort max_lt), List.take_left]
  · exact ⟨_, if_pos hlength, fun secret => iff_of_false nofun fun h => hlength h.1⟩

/-! ### The format end to end -/

/-- Files and blocks: what is read is just what is written, up to the caps, and no block
makes taking it apart go out of range. -/
structure ExactEndToEnd : Prop where
  encodes (stored : Stored) : (∃ bytes, stored.encode = .ok bytes) ↔
    stored.blob.length ≤ MAX_BLOB ∧ stored.cipher.length ≤ MAX_CIPHER
  roundTrip (stored : Stored) (bytes : Bytes) :
    stored.encode = .ok bytes → Stored.decode bytes = .ok stored
  decodes (stored : Stored) (bytes : Bytes) :
    Stored.decode bytes = .ok stored ↔ stored.encode = .ok bytes
  loads (path : String) (bytes : Bytes) (stored : Stored) :
    load path (.regular bytes) = .ok (some stored) ↔ stored.encode = .ok bytes
  padded (secret : Bytes) : secret.length ≤ MAX_PASSPHRASE_BYTES →
    ∃ padded, pad secret = .ok (.ok padded) ∧ padded.length = PADDED_LEN ∧
      unpad padded = .ok (.ok secret)
  unpadded (padded : Bytes) : ∃ result, unpad padded = .ok result ∧
    ∀ secret, result = .ok secret → secret.length ≤ MAX_PASSPHRASE_BYTES

theorem exact_end_to_end : ExactEndToEnd where
  encodes stored := by
    simp only [encode_eq_ok]
    exact ⟨fun ⟨_, hfits, _⟩ => hfits, fun hfits => ⟨_, hfits, rfl⟩⟩
  roundTrip stored bytes := stored_exact.decode_encode
  decodes stored bytes := stored_exact stored bytes
  loads path bytes stored := load_regular
  padded secret h := by
    obtain ⟨result, hunpad, hresult⟩ := unpad_spec (block secret)
    have hsecret : result = .ok secret := (hresult secret).mpr ⟨length_block h, h, _, rfl⟩
    exact ⟨block secret, pad_eq h, length_block h, hsecret ▸ hunpad⟩
  unpadded padded := by
    obtain ⟨result, hunpad, hresult⟩ := unpad_spec padded
    exact ⟨result, hunpad, fun secret hsecret => ((hresult secret).mp hsecret).2.1⟩

end LastpassSshAgent.Enclave
