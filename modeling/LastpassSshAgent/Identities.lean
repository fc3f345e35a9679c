import LastpassSshAgent.Config

/-!
# The identities file kept beside the socket

It is read only when it is a regular file, no larger than anything the agent
writes, and names item ids only; a file that will not decode reads as absent.
-/

namespace LastpassSshAgent

structure RememberedKey where
  id : String
  name : String
  publicKey : String
  deriving DecidableEq, Repr

structure Remembered where
  keys : List RememberedKey
  deriving DecidableEq, Repr

/-- The TOML library at the one type the agent writes. -/
structure Toml where
  encode : Remembered → Except String String
  decode : String → Except String Remembered

def Toml.RoundTrips (toml : Toml) : Prop :=
  ∀ remembered text, toml.encode remembered = .ok text → toml.decode text = .ok remembered

inductive File where
  | absent
  | regular (bytes : Bytes)
  | special
  | unreadable (why : String)
  deriving DecidableEq, Repr

namespace Identities

def MAX_BYTES : ℕ := 1024 * 1024

def openRegular (path : String) : File → Except Error (Option Bytes)
  | .absent => .ok none
  | .regular bytes => .ok (some bytes)
  | .special => .error (.state s!"{path} is not a regular file — refusing to read it")
  | .unreadable why => .error (.io why)

def decode (toml : Toml) (bytes : Bytes) : Except String Remembered :=
  if MAX_BYTES < bytes.length then .error "larger than anything this writes"
  else
    match fromUtf8 bytes with
    | none => .error "invalid utf-8 sequence"
    | some text => do
      let remembered ← toml.decode text
      if remembered.keys.all fun key => isItemId key.id then .ok remembered
      else .error "an item id that is not one"

/-- What the last start wrote down, or nothing. One byte past the cap is read, so
an oversized file is refused rather than cut to a length that decodes. -/
def load (toml : Toml) (path : String) (file : File) : Except Error (Option Remembered) := do
  match ← openRegular path file with
  | none => .ok none
  | some bytes =>
    match decode toml (bytes.take (MAX_BYTES + 1)) with
    | .ok remembered => .ok (some remembered)
    | .error _ => .ok none

/-- The file a set is written down as. -/
def encode (toml : Toml) (remembered : Remembered) : Except Error Bytes :=
  match toml.encode remembered with
  | .ok text => .ok (utf8 text)
  | .error e => .error (.state s!"cannot encode the remembered identities: {e}")

/-! ### What a file says -/

section

variable {toml : Toml} {path : String} {file : File} {bytes : Bytes} {remembered : Remembered}

theorem encode_eq_ok : encode toml remembered = .ok bytes ↔
    ∃ text, toml.encode remembered = .ok text ∧ utf8 text = bytes := by
  unfold encode
  cases toml.encode remembered with
  | error e => exact iff_of_false nofun nofun
  | ok text => simp

theorem decode_eq_ok : decode toml bytes = .ok remembered ↔ bytes.length ≤ MAX_BYTES ∧
    ∃ text, fromUtf8 bytes = some text ∧ toml.decode text = .ok remembered ∧
      ∀ key ∈ remembered.keys, isItemId key.id = true := by
  unfold decode
  by_cases hsize : bytes.length ≤ MAX_BYTES
  · rw [if_neg (Nat.not_lt.mpr hsize), and_iff_right hsize]
    cases fromUtf8 bytes with
    | none => exact iff_of_false nofun nofun
    | some text =>
      simp only [bind_eq_ok, Option.some.injEq, exists_eq_left', ← List.all_eq_true]
      constructor
      · rintro ⟨parsed, hparsed, hids⟩
        split_ifs at hids with hall
        obtain rfl := Except.ok.inj hids
        exact ⟨hparsed, hall⟩
      · rintro ⟨hparsed, hall⟩
        exact ⟨remembered, hparsed, if_pos hall⟩
  · rw [if_pos (Nat.lt_of_not_le hsize)]
    exact iff_of_false nofun fun h => hsize h.1

theorem decode_take (toml : Toml) (bytes : Bytes) :
    decode toml (bytes.take (MAX_BYTES + 1)) = decode toml bytes := by
  by_cases hsize : bytes.length ≤ MAX_BYTES
  · rw [List.take_of_length_le (Nat.le_succ_of_le hsize)]
  · have hlong : MAX_BYTES < (bytes.take (MAX_BYTES + 1)).length := by
      rw [List.length_take]
      omega
    rw [decode, if_pos hlong, decode, if_pos (Nat.lt_of_not_le hsize)]

theorem load_regular : load toml path (.regular bytes) = .ok (decode toml bytes).toOption := by
  rw [← decode_take toml bytes]
  unfold load
  dsimp only [openRegular, bind, Except.bind]
  cases decode toml (bytes.take (MAX_BYTES + 1)) with
  | error e => rfl
  | ok remembered => rfl

theorem load_eq_some : load toml path file = .ok (some remembered) ↔
    ∃ bytes, file = .regular bytes ∧ decode toml bytes = .ok remembered := by
  cases file with
  | absent => exact iff_of_false nofun nofun
  | special => exact iff_of_false nofun nofun
  | unreadable why => exact iff_of_false nofun nofun
  | regular bytes =>
    rw [load_regular]
    cases hdecode : decode toml bytes with
    | error e => exact iff_of_false nofun (by simp [hdecode])
    | ok decoded => simp [hdecode, Except.toOption]

theorem load_encode (ht : toml.RoundTrips) (path : String) (he : encode toml remembered = .ok bytes)
    (hc : bytes.length ≤ MAX_BYTES) (hid : ∀ key ∈ remembered.keys, isItemId key.id = true) :
    load toml path (.regular bytes) = .ok (some remembered) := by
  obtain ⟨text, htext, rfl⟩ := encode_eq_ok.mp he
  exact load_eq_some.mpr ⟨_, rfl, decode_eq_ok.mpr
    ⟨hc, text, fromUtf8_utf8 text, ht _ _ htext, hid⟩⟩

end

end Identities

end LastpassSshAgent
