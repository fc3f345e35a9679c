import Mathlib.Data.List.Basic

/-!
# Exact formats

A format is exact when a text decodes to a value just if it is that value's encoding. A
reader that takes in no more than one symbol past the longest encoding decodes what it
would have decoded from the whole text.
-/

namespace Framing

variable {ε ε' σ α : Type}

def Exact (encode : α → Except ε (List σ)) (decode : List σ → Except ε' α) : Prop :=
  ∀ a text, decode text = .ok a ↔ encode a = .ok text

variable {encode : α → Except ε (List σ)} {decode : List σ → Except ε' α}

theorem Exact.decode_encode (h : Exact encode decode) {a : α} {text : List σ}
    (ha : encode a = .ok text) : decode text = .ok a := (h a text).mpr ha

/-- Cutting off what lies beyond the limit makes no text decode. -/
theorem Exact.decode_take (h : Exact encode decode) {limit : ℕ}
    (hlimit : ∀ a text, encode a = .ok text → text.length < limit) (a : α) (text : List σ) :
    decode (text.take limit) = .ok a ↔ encode a = .ok text := by
  rw [h a]
  constructor
  · intro ha
    have hshort := hlimit a _ ha
    rw [List.length_take] at hshort
    rwa [List.take_of_length_le (by omega)] at ha
  · intro ha
    rwa [List.take_of_length_le (Nat.le_of_lt (hlimit a text ha))]

end Framing
