import LastpassSshAgent.Resumption.Pool

/-!
# Rules that ask for more

What was verified under some rules is verified under further ones, as long as it does
nothing that they are about. Only what does has to be looked at again.
-/

namespace Resumption

variable {I : Interface} {α : Type}

namespace Rules

/-- The rules, and what they ask for besides. -/
def also (R : Rules I) (asked : Stage I → ℕ → Act I → Prop) : Rules I where
  allowed s t act := R.allowed s t act ∧ asked s t act
  pause := R.pause

variable {R : Rules I} {asked : Stage I → ℕ → Act I → Prop} {init : I.State → Prop} {t : ℕ}
  {s s₁ : Stage I}

theorem Legal.of_also {act : Act I} (h : (R.also asked).Legal s t act s₁) :
    R.Legal s t act s₁ := by
  cases h with
  | started hl hx => exact .started hl hx
  | began hl h => exact .began hl h.1
  | answered hl hx => exact .answered hl hx
  | noted hl h => exact .noted hl h.1
  | ended hl h => exact .ended hl h.1

theorem Others.of_also (h : (R.also asked).Others t s s₁) : R.Others t s s₁ := by
  induction h with
  | refl => exact .refl
  | act _ hu h ih => exact ih.act hu h.of_also
  | drift d _ ih => exact ih.drift d

theorem Lawful.of_also (h : (R.also asked).Lawful init s) : R.Lawful init s := by
  induction h with
  | start hx => exact .start hx
  | act _ h ih => exact ih.act h.of_also
  | drift d _ ih => exact ih.drift d

/-- A program that does nothing the further rules are about keeps them too. -/
theorem wp_also {A : Act I → Prop} {p : Program I α} {Q : α → Stage I → Prop} (hp : p.Emits A)
    (hA : ∀ s act, A act → asked s t act) (h : R.wp t p Q s) : (R.also asked).wp t p Q s := by
  induction p generalizing s with
  | done a => exact h
  | read next ih => exact ih _ (hp _) h
  | emit e next ih => exact ⟨⟨h.1, hA _ _ hp.1⟩, ih hp.2 h.2⟩
  | await q next ih =>
    refine ⟨⟨h.1, hA _ _ hp.1⟩, fun s₁ h₁ => ⟨(h.2 s₁ h₁.of_also).1, fun a x hx => ?_⟩⟩
    exact ih a (hp.2 a).2 ((h.2 s₁ h₁.of_also).2 a x hx)

end Rules

end Resumption
