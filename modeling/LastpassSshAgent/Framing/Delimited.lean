import Mathlib.Data.List.Basic

/-!
# Lists written with separators

A list of words joined by a separator, or each closed by one, is recovered from the
whole when the separator occurs in no word. Joining cannot tell no words from one empty
word, so where a list may be empty its words may not.
-/

namespace Framing

variable {α : Type} {sep : α} {xs ys : List (List α)}

/-- Words each closed by the separator. -/
def terminated (sep : α) (xs : List (List α)) : List α := xs.flatMap fun x => x ++ [sep]

theorem terminated_inj (hx : ∀ x ∈ xs, sep ∉ x) (hy : ∀ y ∈ ys, sep ∉ y)
    (h : terminated sep xs = terminated sep ys) : xs = ys := by
  induction xs generalizing ys with
  | nil =>
    cases ys with
    | nil => rfl
    | cons y ys => simp [terminated] at h
  | cons x xs ih =>
    cases ys with
    | nil => simp [terminated] at h
    | cons y ys =>
      obtain ⟨hx, hxs⟩ := List.forall_mem_cons.mp hx
      obtain ⟨hy, hys⟩ := List.forall_mem_cons.mp hy
      have hsplit : x ++ sep :: terminated sep xs = y ++ sep :: terminated sep ys := by
        simpa [terminated] using h
      have hword : x = y := by
        rcases List.append_eq_append_iff.mp hsplit with ⟨front, rfl, hrest⟩ | ⟨front, rfl, hrest⟩
        · cases front with
          | nil => simp
          | cons z front =>
            obtain ⟨rfl, -⟩ := List.cons.inj hrest
            exact absurd (List.mem_append_right x List.mem_cons_self) hy
        · cases front with
          | nil => simp
          | cons z front =>
            obtain ⟨rfl, -⟩ := List.cons.inj hrest
            exact absurd (List.mem_append_right y List.mem_cons_self) hx
      subst hword
      rw [ih hxs hys (List.cons.inj (List.append_cancel_left hsplit)).2]

theorem terminated_eq_intercalate (h : xs ≠ []) :
    terminated sep xs = [sep].intercalate xs ++ [sep] := by
  induction xs with
  | nil => exact absurd rfl h
  | cons x xs ih =>
    by_cases hxs : xs = []
    · simp [terminated, hxs]
    · rw [List.intercalate_cons_of_ne_nil hxs, List.append_assoc, ← ih hxs]
      simp [terminated]

theorem terminated_concat (front : List (List α)) (last : List α) :
    terminated sep (front ++ [last]) = terminated sep front ++ last ++ [sep] := by
  simp [terminated]

theorem intercalate_concat (front : List (List α)) (last : List α) :
    [sep].intercalate (front ++ [last]) = terminated sep front ++ last := by
  have hjoined := @terminated_eq_intercalate _ sep _ (show front ++ [last] ≠ [] by simp)
  rw [terminated_concat] at hjoined
  exact (List.append_cancel_right hjoined).symm

theorem notMem_of_mem_splitOn [BEq α] [LawfulBEq α] {w text : List α} (h : w ∈ text.splitOn sep) :
    sep ∉ w := by
  induction text generalizing w with
  | nil =>
    obtain rfl : w = [] := by simpa using h
    simp
  | cons c text ih =>
    rw [List.splitOn_cons_eq_if_modifyHead] at h
    obtain ⟨first, rest, hsplit⟩ := List.exists_cons_of_ne_nil (List.splitOn_ne_nil sep text)
    rw [hsplit] at h ih
    by_cases hc : (c == sep) = true
    · rw [if_pos hc] at h
      rcases List.mem_cons.mp h with rfl | hw
      · simp
      · exact ih hw
    · rw [if_neg hc, List.modifyHead_cons] at h
      rcases List.mem_cons.mp h with rfl | hw
      · have hfirst := ih List.mem_cons_self
        rw [List.mem_cons, not_or]
        exact ⟨fun heq => hc (by simp [heq]), hfirst⟩
      · exact ih (List.mem_cons_of_mem first hw)

theorem subset_intercalate {sep x : List α} (h : x ∈ xs) : x ⊆ sep.intercalate xs := by
  induction xs with
  | nil => cases h
  | cons y xs ih =>
    by_cases hxs : xs = []
    · subst hxs
      rw [List.mem_singleton.mp h, List.intercalate_singleton]
      exact List.Subset.refl y
    · rw [List.intercalate_cons_of_ne_nil hxs]
      rcases List.mem_cons.mp h with rfl | h
      · exact fun c hc => by simp [hc]
      · exact fun c hc => List.mem_append_right _ (ih h hc)

theorem subset_of_mem_splitOn [BEq α] [LawfulBEq α] {w text : List α} (h : w ∈ text.splitOn sep) :
    w ⊆ text := by
  have hsubset := @subset_intercalate _ _ [sep] _ h
  rwa [List.intercalate_splitOn] at hsubset

theorem intercalate_inj [DecidableEq α] (hxs : xs ≠ []) (hys : ys ≠ []) (hx : ∀ x ∈ xs, sep ∉ x)
    (hy : ∀ y ∈ ys, sep ∉ y) (h : [sep].intercalate xs = [sep].intercalate ys) : xs = ys := by
  rw [← List.splitOn_intercalate sep hx hxs, h, List.splitOn_intercalate sep hy hys]

theorem intercalate_ne_nil (hxs : xs ≠ []) (hx : ∀ x ∈ xs, x ≠ []) : [sep].intercalate xs ≠ [] := by
  cases xs with
  | nil => exact absurd rfl hxs
  | cons x xs =>
    cases xs with
    | nil => simpa using hx x List.mem_cons_self
    | cons y xs => simp [List.intercalate_cons_cons]

theorem intercalate_cancel {front back : List (List α)} {sep x y : List α}
    (h : sep.intercalate (front ++ x :: back) = sep.intercalate (front ++ y :: back)) : x = y := by
  induction front with
  | nil =>
    cases back with
    | nil => simpa using h
    | cons z back =>
      simp only [List.nil_append, List.intercalate_cons_cons, List.append_assoc] at h
      exact List.append_cancel_right h
  | cons z front ih =>
    have hnil : ∀ w : List α, front ++ w :: back ≠ [] := by simp
    rw [List.cons_append, List.cons_append, List.intercalate_cons_of_ne_nil (hnil x),
      List.intercalate_cons_of_ne_nil (hnil y)] at h
    exact ih (List.append_cancel_left h)

theorem intercalate_inj_of_ne_nil [DecidableEq α] (hx : ∀ x ∈ xs, x ≠ [] ∧ sep ∉ x)
    (hy : ∀ y ∈ ys, y ≠ [] ∧ sep ∉ y) (h : [sep].intercalate xs = [sep].intercalate ys) :
    xs = ys := by
  have hempty : ∀ {zs : List (List α)}, (∀ z ∈ zs, z ≠ [] ∧ sep ∉ z) →
      [sep].intercalate zs = [] → zs = [] := by
    intro zs hz hnil
    by_contra hne
    exact intercalate_ne_nil hne (fun z hmem => (hz z hmem).1) hnil
  by_cases hxs : xs = []
  · subst hxs
    exact (hempty hy h.symm).symm
  · by_cases hys : ys = []
    · subst hys
      exact hempty hx h
    · exact intercalate_inj hxs hys (fun x hmem => (hx x hmem).2) (fun y hmem => (hy y hmem).2) h

end Framing
