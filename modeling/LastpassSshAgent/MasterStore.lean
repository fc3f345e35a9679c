import Mathlib.Data.List.Induction
import LastpassSshAgent.Enclave
import LastpassSshAgent.LpassCli
import LastpassSshAgent.Transitions.Runs

/-!
# The master password kept behind the Secure Enclave

Keeping one seals its block to a new key, and the file is the key, wrapped, and what was
sealed. Getting it back goes through the sensor. What the system answers at each stage, on
this machine and at this moment, is a parameter.
-/

namespace LastpassSshAgent.MasterStore

open Enclave Transitions

/-! ### The crossing -/

/-- What does not change from one call to the next: how keys are written down, what the two
sides of an agreement come to, and what sealing puts out. -/
structure CryptoKit (Key Ephemeral Shared : Type) where
  dataRepresentation : Key → Bytes
  x963Representation : Ephemeral → Bytes
  agreed : Ephemeral → Key → Shared
  box : ℕ → Shared → Bytes → Bytes

/-- What the system answers during one call. An error is the system's own code. -/
structure Device (Key Ephemeral Shared : Type) where
  isAvailable : Bool
  accessControl : Except ℤ Unit
  createKey : Except ℤ Key
  ephemeral : Ephemeral
  sealingKey : Key → Except ℤ Shared
  box : Shared → Bytes → Except ℤ (Option Bytes)
  restore : Bytes → Except ℤ Key
  openingKey : Key → Bytes → Except ℤ Shared
  unbox : Shared → Bytes → Except ℤ Bytes

variable {Key Ephemeral Shared : Type}

def x963PointBytes : ℕ := 65

/-- Where a call stopped, the system's code, and what it put into the caller's buffers. -/
structure Crossed (α : Type) where
  stage : ℤ
  osError : ℤ
  out : α

def STAGE_OK : ℤ := 0
def STAGE_BUFFER_TOO_SMALL : ℤ := 1
def STAGE_UNAVAILABLE : ℤ := 2
def STAGE_ACCESS_CONTROL : ℤ := 3
def STAGE_CREATE : ℤ := 4
def STAGE_RESTORE : ℤ := 5
def STAGE_AGREEMENT : ℤ := 6
def STAGE_CIPHER : ℤ := 7
def STAGE_MALFORMED : ℤ := 8
def STAGE_DECRYPT : ℤ := 9

def stopped (stage osError : ℤ) : Crossed Stored := ⟨stage, osError, ⟨[], []⟩⟩

/-- Both are copied out when they fit, the blob first. -/
def copyStored (stored : Stored) : Crossed Stored :=
  if MAX_BLOB < stored.blob.length then stopped STAGE_BUFFER_TOO_SMALL 0
  else if MAX_CIPHER < stored.cipher.length then stopped STAGE_BUFFER_TOO_SMALL 0
  else ⟨STAGE_OK, 0, stored⟩

def seSeal (kit : CryptoKit Key Ephemeral Shared) (device : Device Key Ephemeral Shared)
    (secret : Bytes) : Crossed Stored :=
  if !device.isAvailable then stopped STAGE_UNAVAILABLE 0
  else
    match device.accessControl, device.createKey with
    | .error code, _ => stopped STAGE_ACCESS_CONTROL code
    | .ok _, .error code => stopped STAGE_CREATE code
    | .ok _, .ok key =>
      match (device.sealingKey key).bind fun shared => device.box shared secret with
      | .error code => stopped STAGE_CIPHER code
      | .ok none => stopped STAGE_CIPHER 0
      | .ok (some sealed) => copyStored
          ⟨kit.dataRepresentation key, kit.x963Representation device.ephemeral ++ sealed⟩

/-- The agreement is what asks for the fingerprint. -/
def seOpen (device : Device Key Ephemeral Shared) (stored : Stored) (cap : ℕ) : Crossed Bytes :=
  if stored.cipher.length ≤ x963PointBytes then ⟨STAGE_MALFORMED, 0, []⟩
  else
    match device.restore stored.blob with
    | .error code => ⟨STAGE_RESTORE, code, []⟩
    | .ok key =>
      match device.openingKey key (stored.cipher.take x963PointBytes) with
      | .error code => ⟨STAGE_AGREEMENT, code, []⟩
      | .ok shared =>
        match device.unbox shared (stored.cipher.drop x963PointBytes) with
        | .error code => ⟨STAGE_DECRYPT, code, []⟩
        | .ok plaintext =>
          if cap < plaintext.length then ⟨STAGE_BUFFER_TOO_SMALL, 0, []⟩
          else ⟨STAGE_OK, 0, plaintext⟩

/-! ### What the answers mean -/

inductive Outcome where
  | done
  | unavailable
  | refused
  | reseed
  | failed (code : ℤ)
  deriving DecidableEq, Repr

/-- The codes of a prompt that did not end in a fingerprint. -/
def NOT_AUTHENTICATED : List ℤ := [-2, -3, -4, -9, -7, -8, -1004]

def isNotAuthenticated (osError : ℤ) : Bool := NOT_AUTHENTICATED.contains osError

def meaning (stage osError : ℤ) : Outcome :=
  if stage = STAGE_OK then .done
  else if stage = STAGE_UNAVAILABLE then .unavailable
  else if stage = STAGE_RESTORE ∨ stage = STAGE_MALFORMED ∨ stage = STAGE_DECRYPT then .reseed
  else if stage = STAGE_AGREEMENT ∧ isNotAuthenticated osError then .refused
  else .failed osError

def Outcome.describe : Outcome → String
  | .done => "the Secure Enclave answered"
  | .unavailable => "this Mac has no Secure Enclave"
  | .refused => "Touch ID was not confirmed"
  | .reseed => "what is stored can no longer be opened — a fingerprint added or removed since it was kept will do that, and so will a damaged file — so run `lastpass-ssh-agent store-master-password` again"
  | .failed code => s!"the Secure Enclave refused the request (code {code})"

def Crossed.result {α : Type} (crossed : Crossed α) : Except Outcome α :=
  match meaning crossed.stage crossed.osError with
  | .done => .ok crossed.out
  | outcome => .error outcome

/-- A block that is not one this wrote is past saving, as is a key that cannot be used
again. Both read as an empty store. -/
def unwrapped : Except Outcome Bytes → Except BlockPanic (Except String (Option Bytes))
  | .ok padded => do
    let secret ← unpad padded
    .ok (.ok secret.toOption)
  | .error .reseed => .ok (.ok none)
  | .error outcome => .ok (.error outcome.describe)

/-! ### The store -/

def get (device : Device Key Ephemeral Shared) (path : String) (file : File) :
    Except BlockPanic (Except String (Option Bytes)) :=
  match load path file with
  | .error e => .ok (.error e.display)
  | .ok none => .ok (.ok none)
  | .ok (some stored) => unwrapped (seOpen device stored PADDED_LEN).result

def sealBytes (kit : CryptoKit Key Ephemeral Shared) (device : Device Key Ephemeral Shared)
    (secret : Bytes) : Except BlockPanic (Except String Bytes) := do
  match ← pad secret with
  | .error e => .ok (.error e.display)
  | .ok block =>
    match (seSeal kit device block).result with
    | .error outcome => .ok (.error outcome.describe)
    | .ok stored => .ok (stored.encode.mapError Error.display)

/-- What a path holds once these bytes were to be written there: all of them, or what it
held. -/
def save (works : Bool) (file : File) : Except String Bytes → File
  | .ok bytes => if works then .regular bytes else file
  | .error _ => file

/-! ### What is sealed opens -/

/-- A point takes 65 bytes, and sealing adds a nonce and a tag. -/
structure CryptoKit.Lawful (kit : CryptoKit Key Ephemeral Shared) : Prop where
  length_x963 (e : Ephemeral) : (kit.x963Representation e).length = x963PointBytes
  length_box (nonce : ℕ) (shared : Shared) (plaintext : Bytes) :
    (kit.box nonce shared plaintext).length = plaintext.length + 28

/-- A key comes back as itself or not at all, both sides agree or there is an error, and what
was sealed with a key opens with it. -/
structure Device.Lawful (kit : CryptoKit Key Ephemeral Shared)
    (device : Device Key Ephemeral Shared) : Prop where
  sealing (key : Key) (shared : Shared) : device.sealingKey key = .ok shared →
    shared = kit.agreed device.ephemeral key
  box (shared : Shared) (plaintext sealed : Bytes) :
    device.box shared plaintext = .ok (some sealed) →
      ∃ nonce, sealed = kit.box nonce shared plaintext
  restore (key key' : Key) : device.restore (kit.dataRepresentation key) = .ok key' → key' = key
  opening (e : Ephemeral) (key : Key) (shared : Shared) :
    device.openingKey key (kit.x963Representation e) = .ok shared → shared = kit.agreed e key
  unbox (nonce : ℕ) (shared : Shared) (plaintext : Bytes) :
    device.unbox shared (kit.box nonce shared plaintext) = .ok plaintext

def kept (kit : CryptoKit Key Ephemeral Shared) (key : Key) (e : Ephemeral) (nonce : ℕ)
    (secret : Bytes) : Stored :=
  ⟨kit.dataRepresentation key,
    kit.x963Representation e ++ kit.box nonce (kit.agreed e key) (block secret)⟩

variable {kit : CryptoKit Key Ephemeral Shared} {device : Device Key Ephemeral Shared}
  {secret bytes : Bytes} {path : String} {file : File}

theorem meaning_eq_done {stage osError : ℤ} : meaning stage osError = .done ↔ stage = STAGE_OK := by
  rw [meaning]
  split_ifs with hok
  · exact iff_of_true rfl hok
  all_goals exact iff_of_false (by simp) hok

theorem result_eq_ok {α : Type} {crossed : Crossed α} {out : α} :
    crossed.result = .ok out ↔ crossed.stage = STAGE_OK ∧ crossed.out = out := by
  have hdone := @meaning_eq_done crossed.stage crossed.osError
  rw [Crossed.result, ← hdone]
  cases meaning crossed.stage crossed.osError with
  | done => simp
  | _ => simp

theorem stage_stopped {stage osError : ℤ} (h : stage ≠ STAGE_OK) :
    (stopped stage osError).stage ≠ STAGE_OK := h

theorem copyStored_of_ok {stored : Stored} (h : (copyStored stored).stage = STAGE_OK) :
    (copyStored stored).out = stored := by
  rw [copyStored] at h ⊢
  split_ifs at h ⊢
  · exact absurd h (stage_stopped (by decide))
  · exact absurd h (stage_stopped (by decide))
  · rfl

theorem seSeal_eq_ok (hdevice : device.Lawful kit) {stored : Stored}
    (h : (seSeal kit device (block secret)).result = .ok stored) :
    ∃ key nonce, device.createKey = .ok key ∧ stored = kept kit key device.ephemeral nonce secret := by
  obtain ⟨hstage, hout⟩ := result_eq_ok.mp h
  unfold seSeal at hstage hout
  by_cases havailable : device.isAvailable = true
  · rw [havailable] at hstage hout
    cases haccess : device.accessControl with
    | error code =>
      rw [haccess] at hstage
      exact absurd hstage (stage_stopped (by decide))
    | ok access =>
      cases hkey : device.createKey with
      | error code =>
        rw [haccess, hkey] at hstage
        exact absurd hstage (stage_stopped (by decide))
      | ok key =>
        rw [haccess, hkey] at hstage hout
        cases hsealed : (device.sealingKey key).bind fun shared => device.box shared (block secret) with
        | error code =>
          simp only [hsealed] at hstage
          exact absurd hstage (stage_stopped (by decide))
        | ok sealed =>
          simp only [hsealed] at hstage hout
          cases sealed with
          | none => exact absurd hstage (stage_stopped (by decide))
          | some sealed =>
            obtain ⟨shared, hshared, hbox⟩ := bind_eq_ok.mp hsealed
            obtain rfl := hdevice.sealing key shared hshared
            obtain ⟨nonce, rfl⟩ := hdevice.box _ _ _ hbox
            exact ⟨key, nonce, rfl, hout.symm.trans (copyStored_of_ok hstage)⟩
  · rw [Bool.not_eq_true] at havailable
    rw [havailable] at hstage
    exact absurd hstage (stage_stopped (by decide))

/-- What opening comes to: nothing to be had without the key, or without the sensor. -/
def opened (device : Device Key Ephemeral Shared) (blob point : Bytes) (secret : Bytes) :
    Except String (Option Bytes) :=
  match device.restore blob with
  | .error _ => .ok none
  | .ok key =>
    match device.openingKey key point with
    | .ok _ => .ok (some secret)
    | .error code =>
      if isNotAuthenticated code then .error Outcome.refused.describe
      else .error (Outcome.failed code).describe

theorem unpad_block (h : secret.length ≤ MAX_PASSPHRASE_BYTES) :
    unpad (block secret) = .ok (.ok secret) := by
  obtain ⟨result, hunpad, hresult⟩ := unpad_spec (block secret)
  rw [hunpad, (hresult secret).mpr ⟨length_block h, h, _, rfl⟩]

theorem unwrapped_seOpen (hkit : kit.Lawful) (hdevice : device.Lawful kit)
    (hsecret : secret.length ≤ MAX_PASSPHRASE_BYTES) (key : Key) (e : Ephemeral) (nonce : ℕ) :
    unwrapped (seOpen device (kept kit key e nonce secret) PADDED_LEN).result =
      .ok (opened device (kit.dataRepresentation key) (kit.x963Representation e) secret) := by
  have hpoint := hkit.length_x963 e
  have hlong : ¬ (kept kit key e nonce secret).cipher.length ≤ x963PointBytes := by
    have hbox := hkit.length_box nonce (kit.agreed e key) (block secret)
    simp only [kept, List.length_append]
    omega
  have htake : (kept kit key e nonce secret).cipher.take x963PointBytes =
      kit.x963Representation e := List.take_left' hpoint
  have hdrop : (kept kit key e nonce secret).cipher.drop x963PointBytes =
      kit.box nonce (kit.agreed e key) (block secret) := List.drop_left' hpoint
  rw [seOpen, if_neg hlong, opened, htake, hdrop]
  dsimp only [kept]
  cases hrestore : device.restore (kit.dataRepresentation key) with
  | error code => rfl
  | ok key' =>
    obtain rfl := hdevice.restore key key' hrestore
    dsimp only
    cases hopening : device.openingKey key' (kit.x963Representation e) with
    | error code =>
      dsimp only
      have hmeaning : meaning STAGE_AGREEMENT code =
          if isNotAuthenticated code then .refused else .failed code := by
        simp [meaning, STAGE_AGREEMENT, STAGE_OK, STAGE_UNAVAILABLE, STAGE_RESTORE,
          STAGE_MALFORMED, STAGE_DECRYPT]
      rw [Crossed.result, hmeaning]
      split_ifs <;> rfl
    | ok shared =>
      obtain rfl := hdevice.opening e key' shared hopening
      dsimp only
      rw [hdevice.unbox nonce]
      dsimp only
      rw [if_neg (by rw [length_block hsecret]; exact Nat.lt_irrefl _)]
      show (unpad (block secret) >>= fun secret => Except.ok (Except.ok secret.toOption)) = _
      rw [unpad_block hsecret]
      rfl

/-! ### A store over its life -/

/-- A secret that was to be kept, and whether it was; and one that was to be forgotten. -/
inductive StoreAct where
  | set (secret : Bytes) (done : Bool)
  | forget (done : Bool)
  deriving DecidableEq, Repr

/-- What the store holds from this act on, if it changed that. -/
def StoreAct.puts : StoreAct → Option (Option Bytes)
  | .set secret true => some (some secret)
  | .forget true => some none
  | _ => none

def lastKept (acts : List StoreAct) : Option Bytes := ((acts.filterMap StoreAct.puts).getLast?).getD none

def isWritten (works : Bool) : Except String Bytes → Bool
  | .ok _ => works
  | .error _ => false

inductive StoreStep (kit : CryptoKit Key Ephemeral Shared) : File → StoreAct → File → Prop
  | set (device : Device Key Ephemeral Shared) (hdevice : device.Lawful kit) (file : File)
      (secret : Bytes) (works : Bool) (written : Except String Bytes)
      (hseal : sealBytes kit device secret = .ok written) :
      StoreStep kit file (.set secret (isWritten works written)) (save works file written)
  | forget (file : File) (works : Bool) :
      StoreStep kit file (.forget works) (Identities.remove works file)

def Keeping (kit : CryptoKit Key Ephemeral Shared) (file : File) : Option Bytes → Prop
  | none => file = .absent
  | some secret => secret.length ≤ MAX_PASSPHRASE_BYTES ∧ ∃ key e nonce bytes,
      (kept kit key e nonce secret).encode = .ok bytes ∧ file = .regular bytes

theorem lastKept_concat (acts : List StoreAct) (a : StoreAct) :
    lastKept (acts ++ [a]) = a.puts.getD (lastKept acts) := by
  rw [lastKept, lastKept, List.filterMap_append]
  cases hputs : a.puts with
  | none => simp [hputs]
  | some put => simp [hputs]

theorem sealBytes_spec (hdevice : device.Lawful kit) (secret : Bytes) :
    ∃ written, sealBytes kit device secret = .ok written ∧ ∀ bytes, written = .ok bytes →
      secret.length ≤ MAX_PASSPHRASE_BYTES ∧ ∃ key nonce, device.createKey = .ok key ∧
        (kept kit key device.ephemeral nonce secret).encode = .ok bytes := by
  unfold sealBytes
  by_cases hsecret : secret.length ≤ MAX_PASSPHRASE_BYTES
  · rw [pad_eq hsecret]
    dsimp only [bind, Except.bind]
    cases hsealed : (seSeal kit device (block secret)).result with
    | error outcome => exact ⟨_, rfl, fun bytes h => by cases h⟩
    | ok stored =>
      refine ⟨_, rfl, fun bytes h => ⟨hsecret, ?_⟩⟩
      obtain ⟨key, nonce, hkey, rfl⟩ := seSeal_eq_ok hdevice hsealed
      exact ⟨key, nonce, hkey, mapError_eq_ok.mp h⟩
  · rw [pad, if_pos (Nat.lt_of_not_le hsecret)]
    exact ⟨_, rfl, fun bytes h => by cases h⟩

theorem Keeping.step {acts : List StoreAct} {a : StoreAct} {file' : File}
    (h : Keeping kit file (lastKept acts)) (hstep : StoreStep kit file a file') :
    Keeping kit file' (lastKept (acts ++ [a])) := by
  rw [lastKept_concat]
  cases hstep with
  | set device hdevice file secret works written hseal =>
    obtain ⟨written', hwritten, hspec⟩ := sealBytes_spec hdevice secret
    obtain rfl : written' = written := Except.ok.inj (hwritten.symm.trans hseal)
    cases written' with
    | error why => exact h
    | ok bytes =>
      cases works with
      | false => exact h
      | true =>
        obtain ⟨hsecret, key, nonce, -, hencode⟩ := hspec bytes rfl
        exact ⟨hsecret, key, device.ephemeral, nonce, bytes, hencode, rfl⟩
  | forget file works =>
    cases works with
    | false => exact h
    | true => rfl

theorem keeping_of_runs {acts : List StoreAct} (h : Runs (StoreStep kit) .absent acts file) :
    Keeping kit file (lastKept acts) :=
  h.invariant (fun acts file => Keeping kit file (lastKept acts)) rfl
    fun _ _ _ _ hkeeping hstep => hkeeping.step hstep

/-! ### What the store gives -/

/-- The sensor lets every key of this machine be used. -/
def Device.Accepts (kit : CryptoKit Key Ephemeral Shared) (device : Device Key Ephemeral Shared) :
    Prop :=
  ∀ key e, device.restore (kit.dataRepresentation key) = .ok key ∧
    ∃ shared, device.openingKey key (kit.x963Representation e) = .ok shared

/-- The keys still load, but nobody proves presence. -/
def Device.Declines (kit : CryptoKit Key Ephemeral Shared) (device : Device Key Ephemeral Shared) :
    Prop :=
  ∀ key e, device.restore (kit.dataRepresentation key) = .ok key ∧ ∃ code,
    isNotAuthenticated code = true ∧
      device.openingKey key (kit.x963Representation e) = .error code

/-- No key of this machine loads again. -/
def Device.Invalidated (kit : CryptoKit Key Ephemeral Shared)
    (device : Device Key Ephemeral Shared) : Prop :=
  ∀ key, ∃ code, device.restore (kit.dataRepresentation key) = .error code

/-- The file has a key in it, and that key does not load. -/
def Unusable (device : Device Key Ephemeral Shared) (path : String) (file : File) : Prop :=
  ∃ stored code, load path file = .ok (some stored) ∧ device.restore stored.blob = .error code

theorem get_absent (path : String) : get device path .absent = .ok (.ok none) := rfl

theorem get_kept (hkit : kit.Lawful) (hdevice : device.Lawful kit) (path : String)
    (hkept : Keeping kit file (some secret)) :
    ∃ key e stored, load path file = .ok (some stored) ∧ stored.blob = kit.dataRepresentation key ∧
      get device path file =
        .ok (opened device (kit.dataRepresentation key) (kit.x963Representation e) secret) := by
  obtain ⟨hsecret, key, e, nonce, bytes, hencode, rfl⟩ := hkept
  have hload : load path (.regular bytes) = .ok (some _) := load_regular.mpr hencode
  refine ⟨key, e, _, hload, rfl, ?_⟩
  rw [get, hload]
  exact unwrapped_seOpen hkit hdevice hsecret key e nonce

theorem opened_eq_some {blob point secret' : Bytes}
    (h : opened device blob point secret = .ok (some secret')) : secret' = secret := by
  unfold opened at h
  cases hrestore : device.restore blob with
  | error code =>
    rw [hrestore] at h
    cases h
  | ok key =>
    simp only [hrestore] at h
    cases hopening : device.openingKey key point with
    | ok shared =>
      simp only [hopening, Except.ok.injEq, Option.some.injEq] at h
      exact h.symm
    | error code =>
      simp only [hopening] at h
      split_ifs at h

theorem opened_eq_none {blob point : Bytes} :
    opened device blob point secret = .ok none ↔ ∃ code, device.restore blob = .error code := by
  unfold opened
  cases hrestore : device.restore blob with
  | error code => exact iff_of_true rfl ⟨code, rfl⟩
  | ok key =>
    refine iff_of_false ?_ (fun ⟨code, h⟩ => nomatch h)
    dsimp only
    cases hopening : device.openingKey key point with
    | ok shared => exact nofun
    | error code =>
      dsimp only
      split_ifs
      · exact nofun
      · exact nofun

theorem get_kept_eq_none (hkit : kit.Lawful) (hdevice : device.Lawful kit) (path : String)
    (hkept : Keeping kit file (some secret)) :
    get device path file = .ok (.ok none) ↔ Unusable device path file := by
  obtain ⟨key, e, stored, hload, hblob, hget⟩ := get_kept hkit hdevice path hkept
  rw [hget, Except.ok.injEq, opened_eq_none, ← hblob]
  constructor
  · rintro ⟨code, hcode⟩
    exact ⟨stored, code, hload, hcode⟩
  · rintro ⟨stored', code, hload', hcode⟩
    obtain rfl := Option.some.inj (Except.ok.inj (hload.symm.trans hload'))
    exact ⟨code, hcode⟩

theorem length_layout (stored : Stored) :
    stored.layout.length = MAGIC.length + 8 + stored.blob.length + stored.cipher.length := by
  simp only [Stored.layout, toBeBytes, List.length_append, List.length_cons, List.length_nil]
  omega

/-- The size of a file says nothing of what is in it. -/
theorem length_sealBytes (hkit : kit.Lawful) (hdevice : device.Lawful kit) :
    ∃ size, ∀ secret bytes, sealBytes kit device secret = .ok (.ok bytes) → bytes.length = size := by
  cases hcreate : device.createKey with
  | error code =>
    refine ⟨0, fun secret bytes hseal => ?_⟩
    obtain ⟨written, hwritten, hspec⟩ := sealBytes_spec hdevice secret
    obtain ⟨-, key, -, hkey, -⟩ := hspec bytes (Except.ok.inj (hwritten.symm.trans hseal))
    cases hcreate.symm.trans hkey
  | ok key =>
    refine ⟨MAGIC.length + 8 + (kit.dataRepresentation key).length +
      (x963PointBytes + (PADDED_LEN + 28)), fun secret bytes hseal => ?_⟩
    obtain ⟨written, hwritten, hspec⟩ := sealBytes_spec hdevice secret
    obtain ⟨hsecret, key', nonce, hkey, hencode⟩ :=
      hspec bytes (Except.ok.inj (hwritten.symm.trans hseal))
    obtain rfl := Except.ok.inj (hcreate.symm.trans hkey)
    obtain ⟨-, rfl⟩ := encode_eq_ok.mp hencode
    rw [length_layout]
    dsimp only [kept]
    rw [List.length_append, hkit.length_x963, hkit.length_box, length_block hsecret]

/-- One key, and boxes that hide nothing. -/
def plainKit : CryptoKit Unit Unit Unit where
  dataRepresentation _ := [1]
  x963Representation _ := List.replicate x963PointBytes 4
  agreed _ _ := ()
  box _ _ plaintext := List.replicate 28 0 ++ plaintext

def plainDevice : Device Unit Unit Unit where
  isAvailable := true
  accessControl := .ok ()
  createKey := .ok ()
  ephemeral := ()
  sealingKey _ := .ok ()
  box shared plaintext := .ok (some (plainKit.box 0 shared plaintext))
  restore _ := .ok ()
  openingKey _ _ := .ok ()
  unbox _ sealed := .ok (sealed.drop 28)

theorem lawful_plainKit : plainKit.Lawful where
  length_x963 _ := List.length_replicate
  length_box _ _ plaintext := by
    show (List.replicate 28 0 ++ plaintext).length = plaintext.length + 28
    rw [List.length_append, List.length_replicate, Nat.add_comm]

theorem lawful_plainDevice : plainDevice.Lawful plainKit where
  sealing _ _ _ := rfl
  box _ _ _ h := ⟨0, (Option.some.inj (Except.ok.inj h)).symm⟩
  restore _ _ _ := rfl
  opening _ _ _ _ := rfl
  unbox _ _ _ := congrArg Except.ok (List.drop_left' List.length_replicate)

theorem sealBytes_plain (secret : Bytes) (h : secret.length ≤ MAX_PASSPHRASE_BYTES) :
    ∃ bytes, sealBytes plainKit plainDevice secret = .ok (.ok bytes) := by
  have hfits : (kept plainKit () () 0 secret).Fits := by
    have hblock := length_block h
    simp only [Stored.Fits, kept, plainKit, List.length_append, List.length_replicate, hblock]
    decide
  have hstored : (seSeal plainKit plainDevice (block secret)).result =
      .ok (kept plainKit () () 0 secret) := by
    show (copyStored (kept plainKit () () 0 secret)).result = _
    rw [copyStored, if_neg (Nat.not_lt.mpr hfits.1), if_neg (Nat.not_lt.mpr hfits.2)]
    rfl
  refine ⟨(kept plainKit () () 0 secret).layout, ?_⟩
  unfold sealBytes
  rw [pad_eq h]
  dsimp only [bind, Except.bind]
  rw [hstored]
  dsimp only
  rw [encode_eq_ok.mpr ⟨hfits, rfl⟩]
  rfl

end LastpassSshAgent.MasterStore
