import Mathlib.Data.List.Infix
import Mathlib.Data.Nat.Digits.Defs

/-!
# Untrusted text, and bytes read as text

`escapeForDisplay` renders control and invisible characters as visible escapes.
The remembered identities escape a name that was escaped once already, so what
matters below is that escaped text has nothing left to escape.
-/

namespace LastpassSshAgent

abbrev Bytes := List UInt8

/-! ### Bytes and text -/

def utf8 (text : String) : Bytes := text.toByteArray.data.toList

def fromUtf8 (bytes : Bytes) : Option String := String.fromUTF8? ⟨bytes.toArray⟩

theorem fromUtf8_utf8 (text : String) : fromUtf8 (utf8 text) = some text := by
  have hv : (⟨(utf8 text).toArray⟩ : ByteArray) = text.toByteArray := by
    rw [utf8, Array.toArray_toList]
  rw [fromUtf8, hv, String.fromUTF8?, dif_pos text.isValidUTF8]
  rfl

theorem utf8_eq_nil {text : String} (h : utf8 text = []) : text = "" := by
  have hs : some text = some "" := by
    rw [← fromUtf8_utf8 text, h]
    decide
  exact Option.some.inj hs

theorem utf8_inj {text text' : String} (h : utf8 text = utf8 text') : text = text' :=
  Option.some.inj ((fromUtf8_utf8 text).symm.trans (h ▸ fromUtf8_utf8 text'))

theorem utf8_append (text text' : String) : utf8 (text ++ text') = utf8 text ++ utf8 text' := by
  simp [utf8]

theorem utf8_ofList (text : List Char) :
    utf8 (String.ofList text) = text.flatMap String.utf8EncodeChar := by
  simp [utf8, String.toByteArray_ofList, List.utf8Encode]

theorem length_utf8_le (text : List Char) :
    (utf8 (String.ofList text)).length ≤ 4 * text.length := by
  rw [utf8_ofList]
  induction text with
  | nil => exact Nat.le_refl 0
  | cons c text ih =>
    have hc : (String.utf8EncodeChar c).length ≤ 4 := by
      rw [String.length_utf8EncodeChar]
      exact c.utf8Size_le_four
    rw [List.flatMap_cons, List.length_append, List.length_cons]
    omega

theorem toString_inj {n m : ℕ} (h : toString n = toString m) : n = m := by
  rw [Nat.toString_eq_repr, Nat.toString_eq_repr, ← String.toList_inj, Nat.toList_repr,
    Nat.toList_repr] at h
  rw [← Nat.ofDigitChars_ten_toDigits (n := n), h, Nat.ofDigitChars_ten_toDigits]

def isContinuation (b : UInt8) : Bool := 0x80 ≤ b && b ≤ 0xbf

/-- How many bytes the first ill-formed sequence takes: as much of it as begins
some character, and at least its first byte. -/
def illFormedLength : Bytes → ℕ
  | b₀ :: b₁ :: rest =>
    if 0xe0 ≤ b₀ && b₀ ≤ 0xef then
      if (if b₀ = 0xe0 then 0xa0 ≤ b₁ && b₁ ≤ 0xbf
          else if b₀ = 0xed then 0x80 ≤ b₁ && b₁ ≤ 0x9f else isContinuation b₁) then 2 else 1
    else if 0xf0 ≤ b₀ && b₀ ≤ 0xf4 then
      if (if b₀ = 0xf0 then 0x90 ≤ b₁ && b₁ ≤ 0xbf
          else if b₀ = 0xf4 then 0x80 ≤ b₁ && b₁ ≤ 0x8f else isContinuation b₁) then
        match rest with
        | b₂ :: _ => if isContinuation b₂ then 3 else 2
        | [] => 2
      else 1
    else 1
  | _ => 1

/-- The one character `bytes` begins with, and how many bytes it takes. -/
def leadingChar (bytes : Bytes) : Option (String × ℕ) :=
  [1, 2, 3, 4].findSome? fun n =>
    if n ≤ bytes.length then (fromUtf8 (bytes.take n)).map (·, n) else none

def replaceIllFormed : ℕ → Bytes → String
  | 0, _ => ""
  | _, [] => ""
  | fuel + 1, bytes =>
    match leadingChar bytes with
    | some (c, n) => c ++ replaceIllFormed fuel (bytes.drop n)
    | none => "\uFFFD" ++ replaceIllFormed fuel (bytes.drop (illFormedLength bytes))

/-- Bytes that are text read as that text; anything else has each ill-formed
sequence replaced. -/
def fromUtf8Lossy (bytes : Bytes) : String :=
  (fromUtf8 bytes).getD (replaceIllFormed bytes.length bytes)

@[simp] theorem fromUtf8Lossy_utf8 (text : String) : fromUtf8Lossy (utf8 text) = text := by
  simp [fromUtf8Lossy, fromUtf8_utf8]

def isWhitespace (c : Char) : Bool :=
  (0x9 ≤ c.toNat && c.toNat ≤ 0xd) || (0x2000 ≤ c.toNat && c.toNat ≤ 0x200a) ||
    c.toNat ∈ [0x20, 0x85, 0xa0, 0x1680, 0x2028, 0x2029, 0x202f, 0x205f, 0x3000]

def trimEnd (text : List Char) : List Char := (text.reverse.dropWhile isWhitespace).reverse

def trim (text : String) : String :=
  String.ofList (trimEnd (text.toList.dropWhile isWhitespace))

def containsText (text pattern : String) : Bool := decide (pattern.toList <:+: text.toList)

def splitOnce (pattern : List Char) : List Char → Option (List Char × List Char)
  | [] => if pattern = [] then some ([], []) else none
  | c :: cs =>
    if pattern.isPrefixOf (c :: cs) then some ([], (c :: cs).drop pattern.length)
    else (splitOnce pattern cs).map fun (before, after) => (c :: before, after)

theorem trimEnd_isPrefix (text : List Char) : trimEnd text <+: text := by
  obtain ⟨front, hfront⟩ := List.dropWhile_suffix (l := text.reverse) isWhitespace
  exact ⟨front.reverse, by rw [trimEnd, ← List.reverse_append, hfront, List.reverse_reverse]⟩

theorem append_of_splitOnce {pattern text before after : List Char}
    (h : splitOnce pattern text = some (before, after)) : text = before ++ pattern ++ after := by
  induction text generalizing before with
  | nil =>
    rw [splitOnce] at h
    split_ifs at h with hpattern
    obtain ⟨rfl, rfl⟩ := Prod.mk.inj (Option.some.inj h)
    simp [hpattern]
  | cons c text ih =>
    rw [splitOnce] at h
    split_ifs at h with hprefix
    · obtain ⟨rfl, rfl⟩ := Prod.mk.inj (Option.some.inj h)
      obtain ⟨rest, hrest⟩ := List.isPrefixOf_iff_prefix.mp hprefix
      rw [← hrest, List.drop_left, List.nil_append]
    · obtain ⟨⟨before', after'⟩, hsplit, heq⟩ := Option.map_eq_some_iff.mp h
      obtain ⟨rfl, rfl⟩ := Prod.mk.inj heq
      rw [ih hsplit]
      rfl

/-! ### Escaping -/

def isControl (c : Char) : Bool := c.toNat ≤ 0x1f || (0x7f ≤ c.toNat && c.toNat ≤ 0x9f)

def INVISIBLE_RANGES : List (ℕ × ℕ) :=
  [(0x00ad, 0x00ad), (0x034f, 0x034f), (0x061c, 0x061c), (0x115f, 0x1160), (0x17b4, 0x17b5),
    (0x180e, 0x180e), (0x200b, 0x200f), (0x202a, 0x202e), (0x2060, 0x206f), (0x3164, 0x3164),
    (0xfeff, 0xfeff), (0xffa0, 0xffa0), (0xfff0, 0xfffb), (0x1bca0, 0x1bca3), (0x1d173, 0x1d17a),
    (0xe0000, 0xe00ff), (0xe01f0, 0xe0fff)]

def isInvisible (c : Char) : Bool :=
  INVISIBLE_RANGES.any fun (start, stop) => start ≤ c.toNat && c.toNat ≤ stop

/-- `n` in lower-case hexadecimal, padded with zeros to `width`. -/
def hex (width n : ℕ) : List Char :=
  List.leftpad width '0' ((Nat.digits 16 n).reverse.map Nat.digitChar)

def escapeChar (c : Char) : List Char :=
  if !isControl c && !isInvisible c then [c]
  else if c.toNat ≤ 0xff then '\\' :: 'x' :: hex 2 c.toNat
  else '\\' :: 'u' :: '{' :: hex 4 c.toNat ++ ['}']

def escapeForDisplay (text : String) : String := String.ofList (text.toList.flatMap escapeChar)

def MAX_DISPLAY_CHARS : ℕ := 200

def displayBounded (text : String) : String :=
  let escaped := (escapeForDisplay text).toList
  if escaped.length ≤ MAX_DISPLAY_CHARS then String.ofList escaped
  else String.ofList (escaped.take MAX_DISPLAY_CHARS) ++
    s!"… [{(escaped.drop MAX_DISPLAY_CHARS).length} more]"

def Plain (c : Char) : Prop := isControl c = false ∧ isInvisible c = false

instance (c : Char) : Decidable (Plain c) := inferInstanceAs (Decidable (_ ∧ _))

theorem escapeChar_of_plain {c : Char} (h : Plain c) : escapeChar c = [c] := by
  simp [escapeChar, h.1, h.2]

theorem plain_digitChar {d : ℕ} (h : d < 16) : Plain d.digitChar := by
  revert d
  decide

theorem plain_of_mem_hex {width n : ℕ} {c : Char} (h : c ∈ hex width n) : Plain c := by
  rw [hex, List.leftpad, List.mem_append, List.mem_replicate, List.mem_map] at h
  rcases h with ⟨_, rfl⟩ | ⟨d, hd, rfl⟩
  · decide
  · exact plain_digitChar (Nat.digits_lt_base (by decide) (List.mem_reverse.mp hd))

theorem plain_of_mem_escapeChar {c d : Char} (h : d ∈ escapeChar c) : Plain d := by
  unfold escapeChar at h
  split_ifs at h with hc hx
  · rw [List.mem_singleton.mp h]
    simpa [Plain] using hc
  · simp only [List.mem_cons] at h
    rcases h with rfl | rfl | h
    · decide
    · decide
    · exact plain_of_mem_hex h
  · simp only [List.cons_append, List.mem_cons, List.mem_append, List.not_mem_nil, or_false] at h
    rcases h with rfl | rfl | rfl | h | rfl
    · decide
    · decide
    · decide
    · exact plain_of_mem_hex h
    · decide

theorem flatMap_escapeChar_of_plain {cs : List Char} (h : ∀ c ∈ cs, Plain c) :
    cs.flatMap escapeChar = cs := by
  induction cs with
  | nil => rfl
  | cons c cs ih =>
    rw [List.flatMap_cons, escapeChar_of_plain (h c List.mem_cons_self),
      ih fun d hd => h d (List.mem_cons_of_mem c hd)]
    rfl

theorem plain_of_mem_escapeForDisplay {text : String} {c : Char}
    (h : c ∈ (escapeForDisplay text).toList) : Plain c := by
  rw [escapeForDisplay, String.toList_ofList] at h
  obtain ⟨d, _, hd⟩ := List.mem_flatMap.mp h
  exact plain_of_mem_escapeChar hd

theorem escapeForDisplay_of_plain {text : String} (h : ∀ c ∈ text.toList, Plain c) :
    escapeForDisplay text = text := by
  rw [escapeForDisplay, flatMap_escapeChar_of_plain h, String.ofList_toList]

@[simp] theorem escapeForDisplay_idem (text : String) :
    escapeForDisplay (escapeForDisplay text) = escapeForDisplay text :=
  escapeForDisplay_of_plain fun _ hc => plain_of_mem_escapeForDisplay hc

end LastpassSshAgent
