import LastpassSshAgent.Text

/-!
# Escaped text, and where it is cut

The source counts characters and cuts bytes: it looks up the byte the first character too
many starts at, and slices there. A slice that falls inside a character is a panic.
-/

namespace LastpassSshAgent

/-! ### Slices by byte -/

def isCharBoundary (text : String) (index : ℕ) : Bool :=
  index == 0 ||
    match (utf8 text)[index]? with
    | some b => !isContinuation b
    | none => index == (utf8 text).length

def sliceTo (text : String) (cut : ℕ) : Option String :=
  if isCharBoundary text cut then fromUtf8 ((utf8 text).take cut) else none

def sliceFrom (text : String) (cut : ℕ) : Option String :=
  if isCharBoundary text cut then fromUtf8 ((utf8 text).drop cut) else none

def charIndices (start : ℕ) : List Char → List (ℕ × Char)
  | [] => []
  | c :: text => (start, c) :: charIndices (start + c.utf8Size) text

/-- `displayBounded` by the slices the source takes, `none` where one of them panics. -/
def displayBoundedSliced (text : String) : Option String :=
  let escaped := escapeForDisplay text
  match (charIndices 0 escaped.toList)[MAX_DISPLAY_CHARS]? with
  | none => some escaped
  | some (cut, _) => do
    let omitted := (← sliceFrom escaped cut).length
    let shown ← sliceTo escaped cut
    some (shown ++ s!"… [{omitted} more]")

theorem not_isContinuation_of_first {b : UInt8} (h : b.IsUTF8FirstByte) :
    isContinuation b = false := by
  have hall : ∀ b : Fin 256, (UInt8.ofFin b).IsUTF8FirstByte →
      isContinuation (UInt8.ofFin b) = false := by decide +kernel
  exact hall b.toFin h

theorem isCharBoundary_append (front back : List Char) :
    isCharBoundary (String.ofList (front ++ back)) (utf8 (String.ofList front)).length = true := by
  rw [isCharBoundary, String.ofList_append, utf8_append, List.getElem?_append_right (Nat.le_refl _),
    Nat.sub_self]
  cases back with
  | nil =>
    have hempty : utf8 (String.ofList []) = [] := rfl
    simp [hempty]
  | cons c back =>
    have hpos : 0 < (String.utf8EncodeChar c).length := by
      rw [String.length_utf8EncodeChar]
      exact c.utf8Size_pos
    have hfirst : (utf8 (String.ofList (c :: back)))[0]? = some (String.utf8EncodeChar c)[0] := by
      rw [utf8_ofList, List.flatMap_cons, List.getElem?_append_left hpos,
        List.getElem?_eq_getElem hpos]
    rw [hfirst]
    simp [not_isContinuation_of_first UInt8.isUTF8FirstByte_getElem_zero_utf8EncodeChar]

theorem sliceTo_append (front back : List Char) :
    sliceTo (String.ofList (front ++ back)) (utf8 (String.ofList front)).length =
      some (String.ofList front) := by
  rw [sliceTo, if_pos (isCharBoundary_append front back), String.ofList_append, utf8_append,
    List.take_left, fromUtf8_utf8]

theorem sliceFrom_append (front back : List Char) :
    sliceFrom (String.ofList (front ++ back)) (utf8 (String.ofList front)).length =
      some (String.ofList back) := by
  rw [sliceFrom, if_pos (isCharBoundary_append front back), String.ofList_append, utf8_append,
    List.drop_left, fromUtf8_utf8]

theorem getElem?_charIndices (start : ℕ) (text : List Char) (n : ℕ) :
    (charIndices start text)[n]? =
      text[n]?.map (start + (utf8 (String.ofList (text.take n))).length, ·) := by
  induction text generalizing start n with
  | nil => simp [charIndices]
  | cons c text ih =>
    cases n with
    | zero =>
      have hempty : utf8 (String.ofList []) = [] := rfl
      simp [charIndices, hempty, -String.ofList_nil]
    | succ n =>
      rw [charIndices, List.getElem?_cons_succ, List.getElem?_cons_succ, ih, List.take_succ_cons,
        utf8_ofList, utf8_ofList, List.flatMap_cons, List.length_append,
        String.length_utf8EncodeChar, Nat.add_assoc]

/-- The cut is made between two characters, after as many as are shown. -/
theorem displayBoundedSliced_eq (text : String) :
    displayBoundedSliced text = some (displayBounded text) := by
  rw [displayBoundedSliced, displayBounded]
  generalize escapeForDisplay text = escaped
  by_cases hfits : escaped.toList.length ≤ MAX_DISPLAY_CHARS
  · rw [getElem?_charIndices, List.getElem?_eq_none hfits, if_pos hfits, String.ofList_toList]
    rfl
  · have hcut : MAX_DISPLAY_CHARS < escaped.toList.length := Nat.lt_of_not_le hfits
    have htext : escaped = String.ofList (escaped.toList.take MAX_DISPLAY_CHARS ++
        escaped.toList.drop MAX_DISPLAY_CHARS) := by
      rw [List.take_append_drop, String.ofList_toList]
    have hto := sliceTo_append (escaped.toList.take MAX_DISPLAY_CHARS)
      (escaped.toList.drop MAX_DISPLAY_CHARS)
    have hfrom := sliceFrom_append (escaped.toList.take MAX_DISPLAY_CHARS)
      (escaped.toList.drop MAX_DISPLAY_CHARS)
    rw [← htext] at hto hfrom
    rw [getElem?_charIndices, List.getElem?_eq_getElem hcut, if_neg hfits, Nat.zero_add]
    simp only [Option.map_some, hto, hfrom, Option.bind_eq_bind, Option.bind_some,
      ← String.length_toList, String.toList_ofList]

/-! ### Laws -/

theorem escapeForDisplay_append (s t : String) :
    escapeForDisplay (s ++ t) = escapeForDisplay s ++ escapeForDisplay t := by
  rw [escapeForDisplay, String.toList_append, List.flatMap_append, String.ofList_append]
  rfl

theorem escapeForDisplay_eq_self_iff (s : String) :
    escapeForDisplay s = s ↔ ∀ c ∈ s.toList, Plain c := by
  constructor
  · intro h c hc
    have hshown : c ∈ (escapeForDisplay s).toList := h.symm ▸ hc
    exact plain_of_mem_escapeForDisplay hshown
  · exact escapeForDisplay_of_plain

theorem displayBounded_of_short {s : String} (h : (escapeForDisplay s).length ≤ MAX_DISPLAY_CHARS) :
    displayBounded s = escapeForDisplay s := by
  rw [displayBounded, if_pos (String.length_toList.trans_le h), String.ofList_toList]

theorem displayBounded_of_long {s : String} (h : MAX_DISPLAY_CHARS < (escapeForDisplay s).length) :
    ∃ shown rest : String, escapeForDisplay s = shown ++ rest ∧ shown.length = MAX_DISPLAY_CHARS ∧
      displayBounded s = shown ++ s!"… [{rest.length} more]" := by
  have hlong : ¬ (escapeForDisplay s).toList.length ≤ MAX_DISPLAY_CHARS := by
    rw [String.length_toList]
    exact Nat.not_le_of_lt h
  refine ⟨String.ofList ((escapeForDisplay s).toList.take MAX_DISPLAY_CHARS),
    String.ofList ((escapeForDisplay s).toList.drop MAX_DISPLAY_CHARS), ?_, ?_, ?_⟩
  · rw [← String.ofList_append, List.take_append_drop, String.ofList_toList]
  · rw [String.length_ofList, List.length_take, String.length_toList]
    exact Nat.min_eq_left (Nat.le_of_lt h)
  · rw [displayBounded, if_neg hlong, String.length_ofList]

/-- Escaping goes character by character and is done once; what is bounded is cut between
two characters and says how many it leaves out. -/
theorem escaping_laws (s t : String) :
    escapeForDisplay (s ++ t) = escapeForDisplay s ++ escapeForDisplay t ∧
      escapeForDisplay (escapeForDisplay s) = escapeForDisplay s ∧
      (escapeForDisplay s = s ↔
        ∀ c ∈ s.toList, isControl c = false ∧ isInvisible c = false) ∧
      ((escapeForDisplay s).length ≤ 200 → displayBounded s = escapeForDisplay s) ∧
      (200 < (escapeForDisplay s).length → ∃ shown rest : String,
        escapeForDisplay s = shown ++ rest ∧ shown.length = 200 ∧
        displayBounded s = shown ++ s!"… [{rest.length} more]") ∧
      displayBounded (escapeForDisplay s) = displayBounded s ∧
      displayBoundedSliced s = some (displayBounded s) := by
  refine ⟨escapeForDisplay_append s t, escapeForDisplay_idem s, escapeForDisplay_eq_self_iff s,
    displayBounded_of_short, displayBounded_of_long, ?_, displayBoundedSliced_eq s⟩
  rw [displayBounded, displayBounded, escapeForDisplay_idem]

end LastpassSshAgent
