import Mathlib.Data.Nat.Digits.Lemmas
import LastpassSshAgent.Text

/-!
# Which texts escape alike

Escaping shows a backslash as it is, so a text with an escape written out in it shows as
the text with the character itself. Nothing else is confused: an escape can be read off
the front of the text it begins, and gives its character back.
-/

namespace LastpassSshAgent

/-! ### Hexadecimal -/

def hexValue (digits : List Char) : ℕ :=
  Nat.ofDigits 16 (digits.reverse.map fun c => if c.toNat < 58 then c.toNat - 48 else c.toNat - 87)

theorem digitChar_value {d : ℕ} (h : d < 16) :
    (if d.digitChar.toNat < 58 then d.digitChar.toNat - 48 else d.digitChar.toNat - 87) = d := by
  revert d
  decide

theorem hexValue_hex (width n : ℕ) : hexValue (hex width n) = n := by
  have hdigits : (Nat.digits 16 n).map (fun d =>
      if d.digitChar.toNat < 58 then d.digitChar.toNat - 48 else d.digitChar.toNat - 87) =
        Nat.digits 16 n := by
    refine (List.map_congr_left fun d hd => ?_).trans (List.map_id _)
    exact digitChar_value (Nat.digits_lt_base (by decide) hd)
  rw [hexValue, hex, List.leftpad, List.reverse_append, List.map_append, ← List.map_reverse,
    List.reverse_reverse, List.map_map, List.reverse_replicate, List.map_replicate]
  have hzero : (if ('0' : Char).toNat < 58 then ('0' : Char).toNat - 48 else ('0' : Char).toNat - 87)
      = 0 := by decide
  rw [hzero, Nat.ofDigits_append_replicate_zero]
  exact (congrArg (Nat.ofDigits 16) hdigits).trans (Nat.ofDigits_digits 16 n)

theorem hex_inj {width n m : ℕ} (h : hex width n = hex width m) : n = m := by
  rw [← hexValue_hex width n, h, hexValue_hex]

theorem length_hex_two {n : ℕ} (h : n ≤ 0xff) : (hex 2 n).length = 2 := by
  have hdigits : (Nat.digits 16 n).length ≤ 2 :=
    (Nat.digits_length_le_iff (by decide) n).mpr (by omega)
  rw [hex, List.leftpad, List.length_append, List.length_replicate, List.length_map,
    List.length_reverse]
  omega

theorem mem_hex {width n : ℕ} {c : Char} (h : c ∈ hex width n) : ∃ d < 16, c = d.digitChar := by
  rw [hex, List.leftpad, List.mem_append, List.mem_replicate, List.mem_map] at h
  rcases h with ⟨-, rfl⟩ | ⟨d, hd, rfl⟩
  · exact ⟨0, by decide, rfl⟩
  · exact ⟨d, Nat.digits_lt_base (by decide) (List.mem_reverse.mp hd), rfl⟩

theorem notMem_hex {width n : ℕ} {c : Char} (h : ∀ d < 16, c ≠ d.digitChar) : c ∉ hex width n := by
  intro hmem
  obtain ⟨d, hd, heq⟩ := mem_hex hmem
  exact h d hd heq

/-! ### One escape -/

theorem escapeChar_eq {c : Char} (h : ¬ Plain c) : escapeChar c =
    if c.toNat ≤ 0xff then '\\' :: 'x' :: hex 2 c.toNat
    else '\\' :: 'u' :: '{' :: hex 4 c.toNat ++ ['}'] := by
  have hshown : ¬ (!isControl c && !isInvisible c) = true := by simpa [Plain] using h
  rw [escapeChar, if_neg hshown]

theorem escapeChar_cons {c : Char} (h : ¬ Plain c) :
    ∃ rest, escapeChar c = '\\' :: rest ∧ '\\' ∉ rest := by
  have hhex : ∀ {width n}, '\\' ∉ hex width n := notMem_hex (by decide)
  rw [escapeChar_eq h]
  split_ifs
  · exact ⟨_, rfl, by simp [hhex]⟩
  · exact ⟨_, rfl, by simp [hhex]⟩

theorem escapeChar_ne_nil (c : Char) : escapeChar c ≠ [] := by
  by_cases hc : Plain c
  · rw [escapeChar_of_plain hc]
    exact List.cons_ne_nil c []
  · obtain ⟨rest, hescape, -⟩ := escapeChar_cons hc
    rw [hescape]
    exact List.cons_ne_nil _ rest

theorem escapeForDisplay_ne_empty {text : String} (h : text ≠ "") : escapeForDisplay text ≠ "" := by
  intro hempty
  rw [escapeForDisplay, ← String.toList_eq_nil_iff, String.toList_ofList] at hempty
  refine h (String.toList_eq_nil_iff.mp (List.eq_nil_iff_forall_not_mem.mpr fun c hc => ?_))
  exact escapeChar_ne_nil c (List.flatMap_eq_nil_iff.mp hempty c hc)

theorem escapeChar_inj {c d : Char} {r r' : List Char} (hc : ¬ Plain c) (hd : ¬ Plain d)
    (h : escapeChar c ++ r = escapeChar d ++ r') : c = d ∧ r = r' := by
  have hchar : c.toNat = d.toNat → c = d := fun heq => Char.toNat_inj.mp heq
  have hclose : ∀ {width n}, '}' ∉ hex width n := notMem_hex (by decide)
  rw [escapeChar_eq hc, escapeChar_eq hd] at h
  split_ifs at h with hc' hd' hd'
  · have hhex : hex 2 c.toNat ++ r = hex 2 d.toNat ++ r' := by simpa using h
    obtain ⟨heq, hrest⟩ := List.append_inj hhex ((length_hex_two hc').trans (length_hex_two hd').symm)
    exact ⟨hchar (hex_inj heq), hrest⟩
  · simp at h
  · simp at h
  · have hhex : hex 4 c.toNat ++ '}' :: r = hex 4 d.toNat ++ '}' :: r' := by simpa using h
    have hword : hex 4 c.toNat = hex 4 d.toNat := by
      have hsplit := congrArg (List.takeWhile (· != '}')) hhex
      have htake : ∀ n (rest : List Char),
          (hex 4 n ++ '}' :: rest).takeWhile (· != '}') = hex 4 n := by
        intro n rest
        rw [List.takeWhile_append_of_pos, List.takeWhile_cons_of_neg (by simp), List.append_nil]
        intro x hx
        have hne : x ≠ '}' := fun heq => hclose (heq ▸ hx)
        simpa using hne
      rwa [htake, htake] at hsplit
    refine ⟨hchar (hex_inj hword), ?_⟩
    rw [hword] at hhex
    exact (List.cons.inj (List.append_cancel_left hhex)).2

/-! ### Whole texts -/

/-- The texts are the same, but that either may have an escape written out where the
other has its character. -/
inductive Alike : List Char → List Char → Prop
  | nil : Alike [] []
  | same (c : Char) {p q : List Char} (h : Alike p q) : Alike (c :: p) (c :: q)
  | left {c : Char} (hc : ¬ Plain c) {p q : List Char} (h : Alike p q) :
      Alike (c :: p) (escapeChar c ++ q)
  | right {c : Char} (hc : ¬ Plain c) {p q : List Char} (h : Alike p q) :
      Alike (escapeChar c ++ p) (c :: q)

theorem flatMap_escapeChar_escaped (c : Char) (p : List Char) :
    (escapeChar c ++ p).flatMap escapeChar = escapeChar c ++ p.flatMap escapeChar := by
  rw [List.flatMap_append, flatMap_escapeChar_of_plain fun d hd => plain_of_mem_escapeChar hd]

theorem Alike.escape {p q : List Char} (h : Alike p q) :
    p.flatMap escapeChar = q.flatMap escapeChar := by
  induction h with
  | nil => rfl
  | same c _ ih => rw [List.flatMap_cons, List.flatMap_cons, ih]
  | left _ _ ih => rw [List.flatMap_cons, flatMap_escapeChar_escaped, ih]
  | right _ _ ih => rw [List.flatMap_cons, flatMap_escapeChar_escaped, ih]

theorem Alike.symm {p q : List Char} (h : Alike p q) : Alike q p := by
  induction h with
  | nil => exact .nil
  | same c _ ih => exact .same c ih
  | left hc _ ih => exact .right hc ih
  | right hc _ ih => exact .left hc ih

/-- What is shown without a backslash is there as it is. -/
theorem peel {w r q : List Char} (hw : '\\' ∉ w) (h : q.flatMap escapeChar = w ++ r) :
    ∃ q', q = w ++ q' ∧ q'.flatMap escapeChar = r := by
  induction w generalizing q with
  | nil => exact ⟨q, rfl, h⟩
  | cons x w ih =>
    have hx : '\\' ≠ x := fun heq => hw (heq ▸ List.mem_cons_self)
    cases q with
    | nil => cases h
    | cons e q =>
      rw [List.flatMap_cons] at h
      by_cases he : Plain e
      · rw [escapeChar_of_plain he] at h
        obtain ⟨rfl, hrest⟩ := List.cons.inj h
        obtain ⟨q', rfl, hq'⟩ := ih (fun hmem => hw (List.mem_cons_of_mem _ hmem)) hrest
        exact ⟨q', rfl, hq'⟩
      · obtain ⟨rest, hescape, -⟩ := escapeChar_cons he
        rw [hescape] at h
        exact absurd (List.cons.inj h).1 hx

/-- A character's escape at the front is that character, or is written out. -/
theorem front_of_escape {c : Char} (hc : ¬ Plain c) {q r : List Char}
    (h : q.flatMap escapeChar = escapeChar c ++ r) :
    ∃ q', q'.flatMap escapeChar = r ∧ (q = c :: q' ∨ q = escapeChar c ++ q') := by
  cases q with
  | nil =>
    obtain ⟨rest, hescape, -⟩ := escapeChar_cons hc
    rw [hescape] at h
    cases h
  | cons d q =>
    rw [List.flatMap_cons] at h
    by_cases hd : Plain d
    · obtain ⟨rest, hescape, hrest⟩ := escapeChar_cons hc
      rw [escapeChar_of_plain hd, hescape] at h
      obtain ⟨rfl, hshown⟩ := List.cons.inj h
      obtain ⟨q', rfl, hq'⟩ := peel hrest hshown
      exact ⟨q', hq', .inr (by rw [hescape]; rfl)⟩
    · obtain ⟨rfl, hr⟩ := escapeChar_inj hd hc h
      exact ⟨q, hr, .inl rfl⟩

theorem alike_of_escape {p q : List Char} (h : p.flatMap escapeChar = q.flatMap escapeChar) :
    Alike p q := by
  induction hn : p.length + q.length using Nat.strong_induction_on generalizing p q with
  | _ n ih =>
    subst hn
    cases p with
    | nil =>
      cases q with
      | nil => exact .nil
      | cons d q =>
        rw [List.flatMap_cons] at h
        exact absurd (List.append_eq_nil_iff.mp h.symm).1 (escapeChar_ne_nil d)
    | cons c p =>
      by_cases hc : Plain c
      · -- the other text begins with the same character, or with one whose escape it begins
        rw [List.flatMap_cons, escapeChar_of_plain hc] at h
        cases q with
        | nil => cases h
        | cons d q =>
          by_cases hd : Plain d
          · rw [List.flatMap_cons, escapeChar_of_plain hd] at h
            obtain ⟨rfl, hrest⟩ := List.cons.inj h
            exact .same c (ih (p.length + q.length) (by simp; omega) hrest rfl)
          · have hfront : (c :: p).flatMap escapeChar = escapeChar d ++ q.flatMap escapeChar := by
              rw [List.flatMap_cons, escapeChar_of_plain hc, h, List.flatMap_cons]
            obtain ⟨p', hp', hp | hp⟩ := front_of_escape hd hfront
            · obtain ⟨rfl, rfl⟩ := List.cons.inj hp
              exact absurd hc hd
            · have hlength : p'.length + q.length < (c :: p).length + (d :: q).length := by
                rw [hp, List.length_append, List.length_cons]
                omega
              rw [hp]
              exact .right hd (ih _ hlength hp' rfl)
      · obtain ⟨q', hq', rfl | rfl⟩ := front_of_escape hc (h.symm.trans List.flatMap_cons)
        · exact .same c (ih (p.length + q'.length) (by simp; omega) hq'.symm rfl)
        · have hlength : p.length + q'.length < (c :: p).length + (escapeChar c ++ q').length := by
            rw [List.length_append, List.length_cons]
            omega
          exact .left hc (ih _ hlength hq'.symm rfl)

/-- Two texts are escaped to one exactly when they differ by escapes written out. -/
theorem escapeForDisplay_eq_iff (p q : String) :
    escapeForDisplay p = escapeForDisplay q ↔ Alike p.toList q.toList := by
  have htext : escapeForDisplay p = escapeForDisplay q ↔
      p.toList.flatMap escapeChar = q.toList.flatMap escapeChar := by
    rw [escapeForDisplay, escapeForDisplay, String.ofList_inj]
  rw [htext]
  exact ⟨alike_of_escape, Alike.escape⟩

end LastpassSshAgent
