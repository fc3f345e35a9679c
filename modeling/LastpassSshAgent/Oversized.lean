import LastpassSshAgent.NextStart
import LastpassSshAgent.PrivateFiles
import LastpassSshAgent.Slices

/-!
# Sets too large for the file they are kept in

A file past a megabyte is taken for one that the agent did not write, and reads as absent.
Nothing keeps the agent from writing one: a save has no bound.
-/

namespace LastpassSshAgent

namespace Identities

/-- The text of the set, if there is one, is no longer than a file that is read. -/
def Fits (toml : Toml) (remembered : Remembered) : Prop :=
  ∀ text, toml.encode remembered = .ok text → (utf8 text).length ≤ MAX_BYTES

section

variable {toml : Toml} {path : String} {remembered : Remembered} {bytes : Bytes}

theorem fits_iff : Fits toml remembered ↔
    ∀ bytes, encode toml remembered = .ok bytes → bytes.length ≤ MAX_BYTES := by
  constructor
  · intro h bytes hbytes
    obtain ⟨text, htext, rfl⟩ := encode_eq_ok.mp hbytes
    exact h text htext
  · intro h text htext
    exact h _ (encode_eq_ok.mpr ⟨text, htext, rfl⟩)

theorem load_of_long (h : MAX_BYTES < bytes.length) :
    load toml path (.regular bytes) = .ok none := by
  rw [load_regular, decode, if_pos h]
  rfl

theorem length_le_of_load (h : load toml path (.regular bytes) = .ok (some remembered)) :
    bytes.length ≤ MAX_BYTES := by
  by_contra hlong
  rw [load_of_long (Nat.lt_of_not_le hlong)] at h
  cases h

end

end Identities

theorem PrivateFiles.seen_of_saved {toml : Toml} {remembered : Remembered} {path : Path}
    {umask : ℕ → ℕ} {storage : Storage} {acts : List WriteAct} {s s' : Host} {pid : ℕ} {call : Call}
    (h : Writes path umask storage acts s) (hsave : saveIdentities toml remembered = .ok call)
    (hstep : WriteStep path umask s (.renamed pid call) s') :
    ∃ bytes, Identities.encode toml remembered = .ok bytes ∧
      s'.storage.seen path = .file bytes 0o600 := by
  have hseen := (all_or_nothing path umask storage).renamed acts s pid call s' h hstep
  cases hencode : Identities.encode toml remembered with
  | error e =>
    rw [saveIdentities, saving, hencode] at hsave
    cases hsave
  | ok bytes =>
    rw [saveIdentities, saving, hencode] at hsave
    obtain rfl := Except.ok.inj hsave
    exact ⟨bytes, rfl, hseen⟩

/-- What a save leaves reads back as the set that was saved just when its text is no longer
than a file that is read, and only then does a save refuse what a load takes for no file. -/
theorem save_reads_back_iff {toml : Toml} (htoml : toml.RoundTrips) (path : String)
    (remembered : Remembered) (hids : ∀ key ∈ remembered.keys, isItemId key.id = true) :
    ((∀ bytes file, Identities.encode toml remembered = .ok bytes →
        Identities.load toml path (Identities.save true (.ok bytes) file) =
          .ok (some remembered)) ↔ Identities.Fits toml remembered) ∧
      ((∀ bytes, Identities.load toml path (.regular bytes) = .ok none →
        Identities.encode toml remembered ≠ .ok bytes) ↔ Identities.Fits toml remembered) := by
  rw [Identities.fits_iff]
  constructor
  · constructor
    · intro h bytes hbytes
      exact Identities.length_le_of_load (h bytes .absent hbytes)
    · intro h bytes _ hbytes
      exact Identities.load_encode htoml path hbytes (h bytes hbytes) hids
  · constructor
    · intro h bytes hbytes
      by_contra hlong
      exact h bytes (Identities.load_of_long (Nat.lt_of_not_le hlong)) hbytes
    · intro h bytes hnone hbytes
      rw [Identities.load_encode htoml path hbytes (h bytes hbytes) hids] at hnone
      cases hnone

/-- Both keys of the vault are few enough. -/
theorem save_reads_back_iff_both : ∃ bytes,
    Identities.encode Sample.toml (Sample.written 2) = .ok bytes ∧
      Identities.load Sample.toml Sample.env.rememberedAt (Identities.save true (.ok bytes) .absent) =
        .ok (some (Sample.written 2)) := by
  have hencode : Sample.toml.encode (Sample.written 2) = .ok (Sample.render (Sample.written 2)) := rfl
  have hfits : Identities.Fits Sample.toml (Sample.written 2) := by
    intro text htext
    obtain rfl := Except.ok.inj (hencode.symm.trans htext)
    decide +kernel
  have hbytes := Identities.encode_eq_ok.mpr ⟨_, hencode, rfl⟩
  exact ⟨_, hbytes, (save_reads_back_iff Sample.roundTrips Sample.env.rememberedAt
    (Sample.written 2) (by decide)).1.mpr hfits _ .absent hbytes⟩

namespace Sample

def only (set : Remembered) : Toml where
  encode remembered := if remembered = set then .ok (render remembered) else .error "unsupported"
  decode text := if text = render set then .ok set else .error "invalid"

theorem only_encode (set : Remembered) : (only set).encode set = .ok (render set) := if_pos rfl

theorem only_roundTrips (set : Remembered) : (only set).RoundTrips := by
  intro remembered text h
  have hencode : (if remembered = set then .ok (render remembered) else .error "unsupported") =
      (Except.ok text : Except String String) := h
  split_ifs at hencode with hset
  obtain rfl := Except.ok.inj hencode
  rw [hset]
  exact if_pos rfl

def LONG : ℕ := 65000

/-- A key told from the others by its last byte, with a comment near what a field may hold. -/
def crowdedKey (i : ℕ) : PublicKey where
  keyData := ⟨.ed25519, plain.keyData.blob.dropLast ++ [.ofNat (192 + i)]⟩
  comment := String.ofList (List.replicate LONG 'x')

/-- The last byte of a key has its last letter to itself, but for two bits. -/
def crowdedLine (key : PublicKey) : String :=
  "ssh-ed25519 AAAAC3NzaC1lZDI1NTE5AAAAIATmB+VvEzwUHXmvu8yx8W1e7pp8rkJm5vJBHRmbxjD" ++
    (String.singleton (.ofNat (65 + ((key.keyData.blob.getLast?.getD 0).toNat - 192))) ++
      (" " ++ key.comment))

def crowdedSsh : Ssh := { ssh with publicToOpenssh := crowdedLine }

def crowded : KeyStore where
  entries := (List.range 17).map fun i => ⟨toString (i + 11), "key", crowdedKey i, true, .prompt⟩

def crowdedSet : Remembered := crowded.remember crowdedSsh

theorem length_comment (i : ℕ) : (utf8 (crowdedKey i).comment).length = LONG := by
  have hcomment : ∀ n, ((List.replicate n 'x').flatMap String.utf8EncodeChar).length = n := by
    intro n
    induction n with
    | zero => rfl
    | succ n ih =>
      rw [List.replicate_succ, List.flatMap_cons, List.length_append, ih, Nat.add_comm]
      rfl
  rw [crowdedKey, utf8_ofList, hcomment]

theorem length_head : (utf8
    "ssh-ed25519 AAAAC3NzaC1lZDI1NTE5AAAAIATmB+VvEzwUHXmvu8yx8W1e7pp8rkJm5vJBHRmbxjD").length = 79 := by
  decide +kernel

theorem mem_crowdedSet {key : RememberedKey} (h : key ∈ crowdedSet.keys) :
    ∃ i < 17, key = ⟨toString (i + 11), "key", crowdedLine (crowdedKey i)⟩ := by
  obtain ⟨entry, hentry, rfl⟩ := List.mem_map.mp h
  obtain ⟨i, hi, rfl⟩ := List.mem_map.mp hentry
  exact ⟨i, List.mem_range.mp hi, rfl⟩

theorem length_line (head letter comment : String) :
    (utf8 (head ++ (letter ++ (" " ++ comment)))).length =
      (utf8 head).length + ((utf8 letter).length + (1 + (utf8 comment).length)) := by
  have hspace : (utf8 " ").length = 1 := by decide
  rw [utf8_append, utf8_append, utf8_append, List.length_append, List.length_append,
    List.length_append, hspace]

theorem length_crowdedLine (key : PublicKey) :
    (utf8 key.comment).length ≤ (utf8 (crowdedLine key)).length ∧
      (utf8 (crowdedLine key)).length ≤ 79 + (4 + (1 + (utf8 key.comment).length)) := by
  have hletter : ∀ c, (utf8 (String.singleton c)).length ≤ 4 := by
    intro c
    rw [String.singleton_eq_ofList]
    exact length_utf8_le [c]
  unfold crowdedLine
  rw [length_line]
  constructor
  · exact Nat.le_add_left_of_le (Nat.le_add_left_of_le (Nat.le_add_left _ _))
  · exact Nat.add_le_add (Nat.le_of_eq length_head) (Nat.add_le_add (hletter _) (Nat.le_refl _))

theorem bounded_crowdedLine (i : ℕ) :
    LONG ≤ (utf8 (crowdedLine (crowdedKey i))).length ∧
      (utf8 (crowdedLine (crowdedKey i))).length ≤ MAX_FIELD_BYTES := by
  have hline := length_crowdedLine (crowdedKey i)
  rw [length_comment] at hline
  have hmax : 79 + (4 + (1 + LONG)) ≤ MAX_FIELD_BYTES := by decide
  exact ⟨hline.1, hline.2.trans hmax⟩

theorem length_intercalate_ge {n : ℕ} (sep : String) {texts : List String}
    (h : ∀ text ∈ texts, n ≤ (utf8 text).length) :
    texts.length * n ≤ (utf8 (sep.intercalate texts)).length := by
  induction texts with
  | nil => simp
  | cons text texts ih =>
    have htext := h text List.mem_cons_self
    have hrest := ih fun text hmem => h text (List.mem_cons_of_mem _ hmem)
    cases texts with
    | nil => simpa using htext
    | cons next texts =>
      rw [String.intercalate_cons_cons, utf8_append, utf8_append, List.length_append,
        List.length_append, List.length_cons, Nat.succ_mul]
      omega

theorem length_crowdedSet : Identities.MAX_BYTES < (utf8 (render crowdedSet)).length := by
  have hkeys : ∀ text ∈ crowdedSet.keys.map (fun key => "[[keys]]\nid = \"" ++ key.id ++
      "\"\nname = \"" ++ key.name ++ "\"\npublic = \"" ++ key.publicKey ++ "\"\n"),
      LONG ≤ (utf8 text).length := by
    intro text htext
    obtain ⟨key, hkey, rfl⟩ := List.mem_map.mp htext
    obtain ⟨i, -, rfl⟩ := mem_crowdedSet hkey
    have hline := (bounded_crowdedLine i).1
    rw [utf8_append, utf8_append, List.length_append, List.length_append]
    dsimp only
    omega
  have hcount : (crowdedSet.keys.map fun key => "[[keys]]\nid = \"" ++ key.id ++
      "\"\nname = \"" ++ key.name ++ "\"\npublic = \"" ++ key.publicKey ++ "\"\n").length = 17 := by
    rw [List.length_map, crowdedSet, KeyStore.remember, List.length_map, crowded, List.length_map,
      List.length_range]
  have hsize := length_intercalate_ge "\n" hkeys
  rw [hcount] at hsize
  have hmax : Identities.MAX_BYTES < 17 * LONG := by decide
  exact Nat.lt_of_lt_of_le hmax hsize

end Sample

/-- Seventeen keys, each of which a vault field can hold, are saved to a file that is read as
absent. -/
theorem crowded_set_unread :
    (Sample.only Sample.crowdedSet).RoundTrips ∧
      (∀ key ∈ Sample.crowdedSet.keys,
        isItemId key.id = true ∧ (utf8 key.publicKey).length ≤ MAX_FIELD_BYTES) ∧
      ∃ bytes, Identities.encode (Sample.only Sample.crowdedSet) Sample.crowdedSet = .ok bytes ∧
        Identities.load (Sample.only Sample.crowdedSet) "agent.identities"
          (Identities.save true (.ok bytes) .absent) = .ok none := by
  refine ⟨Sample.only_roundTrips _, ?_, ?_⟩
  · intro key hkey
    obtain ⟨i, hi, rfl⟩ := Sample.mem_crowdedSet hkey
    have hid : ∀ i < 17, isItemId (toString (i + 11)) = true := by decide +kernel
    exact ⟨hid i hi, (Sample.bounded_crowdedLine i).2⟩
  · have hencode : Identities.encode (Sample.only Sample.crowdedSet) Sample.crowdedSet =
        .ok (utf8 (Sample.render Sample.crowdedSet)) :=
      Identities.encode_eq_ok.mpr ⟨_, Sample.only_encode _, rfl⟩
    exact ⟨_, hencode, Identities.load_of_long Sample.length_crowdedSet⟩

end LastpassSshAgent
