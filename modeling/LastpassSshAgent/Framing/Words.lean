import Mathlib.Data.List.Basic

/-!
# Words between separators

The words of a text are its longest pieces without a separator. Separators before the
first word and after the last make no difference.
-/

namespace Framing

variable {α : Type} {p : α → Bool}

def words (p : α → Bool) (text : List α) : List (List α) :=
  (text.splitOnP p).filter (!·.isEmpty)

@[simp] theorem words_nil : words p [] = [] := by simp [words]

theorem words_append_cons {c : α} (hc : p c = true) (before after : List α) :
    words p (before ++ c :: after) = words p before ++ words p after := by
  rw [words, List.splitOnP_append_cons before after hc, List.filter_append, words, words]

theorem words_of_separators {text : List α} (h : ∀ c ∈ text, p c = true) : words p text = [] := by
  induction text with
  | nil => exact words_nil
  | cons c text ih =>
    obtain ⟨hc, htext⟩ := List.forall_mem_cons.mp h
    rw [← List.nil_append (c :: text), words_append_cons hc, words_nil, ih htext]
    rfl

theorem words_append_separators {text seps : List α} (h : ∀ c ∈ seps, p c = true) :
    words p (text ++ seps) = words p text := by
  cases seps with
  | nil => rw [List.append_nil]
  | cons c seps =>
    obtain ⟨hc, hseps⟩ := List.forall_mem_cons.mp h
    rw [words_append_cons hc, words_of_separators hseps, List.append_nil]

theorem words_separators_append {seps text : List α} (h : ∀ c ∈ seps, p c = true) :
    words p (seps ++ text) = words p text := by
  induction seps with
  | nil => rfl
  | cons c seps ih =>
    obtain ⟨hc, hseps⟩ := List.forall_mem_cons.mp h
    rw [List.cons_append, ← List.nil_append (c :: (seps ++ text)), words_append_cons hc, words_nil,
      ih hseps]
    rfl

theorem words_cons {c : α} (hc : p c = false) (text : List α) :
    ∃ first rest, words p (c :: text) = (c :: first) :: rest := by
  obtain ⟨first, rest, hsplit⟩ := List.exists_cons_of_ne_nil (List.splitOnP_ne_nil p text)
  refine ⟨first, rest.filter (!·.isEmpty), ?_⟩
  rw [words, List.splitOnP_cons_eq_if_modifyHead, if_neg (by simp [hc]), hsplit,
    List.modifyHead_cons]
  rfl

end Framing
