import Mathlib.Control.Basic
import Mathlib.Logic.Basic

/-!
# Readers and what they spell

A reader takes a value off the front of a list of symbols, refuses, or throws. One that
reads a relation never throws, and takes off just the symbols that spell its value.
-/

namespace Framing

abbrev Reader (ε σ α : Type) : Type := StateT (List σ) (OptionT (Except ε)) α

variable {ε σ α β : Type} {a : α} {b : β} {u v x y : List σ} {p : Prop}

def Reads (reader : Reader ε σ α) (spells : α → List σ → Prop) : Prop :=
  ∀ data, ∃ result, reader data = OptionT.mk (.ok result) ∧
    ∀ a rest, result = some (a, rest) ↔ ∃ used, spells a used ∧ data = used ++ rest

/-- As `Reads`, for a reader that is also the judge of where the input ends. -/
def Decodes (reader : Reader ε σ α) (spells : α → List σ → Prop) : Prop :=
  ∀ data, ∃ result, reader data = OptionT.mk (.ok result) ∧
    ∀ a, (∃ rest, result = some (a, rest)) ↔ spells a data

variable {reader : Reader ε σ α} {next : α → Reader ε σ β} {P : α → List σ → Prop}
  {Q : α → β → List σ → Prop}

/-! ### Unambiguity -/

/-- What is read from the front of an input is read there once. -/
theorem Reads.unique (h : Reads reader P) {a' : α} (ha : P a u) (ha' : P a' v)
    (heq : u ++ x = v ++ y) : a = a' ∧ x = y := by
  obtain ⟨result, -, hresult⟩ := h (u ++ x)
  have hu : result = some (a, x) := (hresult a x).mpr ⟨u, ha, rfl⟩
  have hv : result = some (a', y) := (hresult a' y).mpr ⟨v, ha', heq⟩
  exact Prod.mk.inj (Option.some.inj (hu.symm.trans hv))

/-! ### Sequences -/

theorem bind_none {data : List σ} (h : reader data = OptionT.mk (.ok none)) :
    (reader >>= next) data = OptionT.mk (.ok none) := by
  change (reader data >>= fun q => next q.1 q.2) = _
  rw [h]
  rfl

theorem bind_some {data rest : List σ} (h : reader data = OptionT.mk (.ok (some (a, rest)))) :
    (reader >>= next) data = next a rest := by
  change (reader data >>= fun q => next q.1 q.2) = _
  rw [h]
  rfl

theorem Reads.pure (a : α) : Reads (pure a : Reader ε σ α) fun b used => b = a ∧ used = [] := by
  intro data
  refine ⟨some (a, data), rfl, fun b rest => ⟨fun h => ?_, ?_⟩⟩
  · obtain ⟨rfl, rfl⟩ := Prod.mk.inj (Option.some.inj h)
    exact ⟨[], ⟨rfl, rfl⟩, rfl⟩
  · rintro ⟨_, ⟨rfl, rfl⟩, rfl⟩
    rfl

theorem Reads.of_guard [Decidable p] :
    Reads (guard p : Reader ε σ Unit) fun _ used => p ∧ used = [] := by
  intro data
  by_cases hp : p
  · refine ⟨some ((), data), by simp only [guard, hp, if_true]; rfl, fun _ rest => ?_⟩
    constructor
    · intro h
      exact ⟨[], ⟨hp, rfl⟩, (Prod.mk.inj (Option.some.inj h)).2⟩
    · rintro ⟨_, ⟨-, rfl⟩, rfl⟩
      rfl
  · refine ⟨none, by simp only [guard, hp, if_false]; rfl, fun _ rest => ?_⟩
    constructor
    · exact nofun
    · rintro ⟨_, ⟨h, -⟩, -⟩
      exact absurd h hp

theorem Reads.bind (h : Reads reader P) (hnext : ∀ a, Reads (next a) (Q a)) :
    Reads (reader >>= next) fun b used => ∃ a u v, P a u ∧ Q a b v ∧ used = u ++ v := by
  intro data
  obtain ⟨result, hrun, hresult⟩ := h data
  cases result with
  | none =>
    refine ⟨none, bind_none hrun, fun b rest => ⟨nofun, ?_⟩⟩
    rintro ⟨_, ⟨a, u, v, ha, -, rfl⟩, rfl⟩
    exact absurd ((hresult a (v ++ rest)).mpr ⟨u, ha, by simp⟩) nofun
  | some read =>
    obtain ⟨a, tail⟩ := read
    obtain ⟨u, ha, rfl⟩ := (hresult a tail).mp rfl
    obtain ⟨result', hrun', hresult'⟩ := hnext a tail
    refine ⟨result', (bind_some hrun).trans hrun', fun b rest => ?_⟩
    rw [hresult' b rest]
    constructor
    · rintro ⟨v, hb, rfl⟩
      exact ⟨u ++ v, ⟨a, u, v, ha, hb, rfl⟩, by simp⟩
    · rintro ⟨_, ⟨a', u', v, ha', hb, rfl⟩, heq⟩
      obtain ⟨rfl, rfl⟩ := h.unique ha ha' (heq.trans (List.append_assoc u' v rest))
      exact ⟨v, hb, rfl⟩

theorem Reads.of_iff {P' : α → List σ → Prop} (h : Reads reader P)
    (hiff : ∀ a used, P a used ↔ P' a used) : Reads reader P' := by
  intro data
  obtain ⟨result, hrun, hresult⟩ := h data
  refine ⟨result, hrun, fun a rest => (hresult a rest).trans ?_⟩
  simp only [hiff]

/-! ### Whole inputs -/

theorem Decodes.of_iff {P' : α → List σ → Prop} (h : Decodes reader P)
    (hiff : ∀ a data, P a data ↔ P' a data) : Decodes reader P' := by
  intro data
  obtain ⟨result, hrun, hresult⟩ := h data
  exact ⟨result, hrun, fun a => (hresult a).trans (hiff a data)⟩

theorem Reads.bind_decodes (h : Reads reader P) (hnext : ∀ a, Decodes (next a) (Q a)) :
    Decodes (reader >>= next) fun b data => ∃ a u v, P a u ∧ Q a b v ∧ data = u ++ v := by
  intro data
  obtain ⟨result, hrun, hresult⟩ := h data
  cases result with
  | none =>
    refine ⟨none, bind_none hrun, fun b => ⟨nofun, ?_⟩⟩
    rintro ⟨a, u, v, ha, -, rfl⟩
    exact absurd ((hresult a v).mpr ⟨u, ha, rfl⟩) nofun
  | some read =>
    obtain ⟨a, tail⟩ := read
    obtain ⟨u, ha, rfl⟩ := (hresult a tail).mp rfl
    obtain ⟨result', hrun', hresult'⟩ := hnext a tail
    refine ⟨result', (bind_some hrun).trans hrun', fun b => ?_⟩
    rw [hresult' b]
    constructor
    · intro hb
      exact ⟨a, u, tail, ha, hb, rfl⟩
    · rintro ⟨a', u', v, ha', hb, heq⟩
      obtain ⟨rfl, rfl⟩ := h.unique ha ha' heq
      exact hb

theorem Reads.checked_decodes {ok : α → Prop} [DecidablePred ok] (h : Reads reader P)
    (hnext : ∀ a, Decodes (next a) (Q a)) :
    Decodes (do let a ← reader; guard (ok a); next a)
      fun b data => ∃ a u v, P a u ∧ ok a ∧ Q a b v ∧ data = u ++ v := by
  refine (h.bind_decodes fun a => Reads.of_guard.bind_decodes fun _ => hnext a).of_iff
    fun b data => ⟨?_, ?_⟩
  · rintro ⟨a, u, _, ha, ⟨-, _, v, ⟨hok, rfl⟩, hb, rfl⟩, rfl⟩
    exact ⟨a, u, _, ha, hok, hb, rfl⟩
  · rintro ⟨a, u, v, ha, hok, hb, rfl⟩
    exact ⟨a, u, v, ha, ⟨(), [], v, ⟨hok, rfl⟩, hb, rfl⟩, rfl⟩

theorem Reads.expect_decodes [DecidableEq α] {c : α} {next : Reader ε σ β}
    {Q : β → List σ → Prop} (h : Reads reader P) (hnext : Decodes next Q) :
    Decodes (do let a ← reader; guard (a = c); next)
      fun b data => ∃ u v, P c u ∧ Q b v ∧ data = u ++ v := by
  refine (h.checked_decodes fun _ => hnext).of_iff fun b data => ⟨?_, ?_⟩
  · rintro ⟨_, u, v, ha, rfl, hb, rfl⟩
    exact ⟨u, v, ha, hb, rfl⟩
  · rintro ⟨u, v, ha, hb, rfl⟩
    exact ⟨c, u, v, ha, rfl, hb, rfl⟩

theorem Decodes.ended [DecidableEq σ] (b : β) :
    Decodes (do let rest ← get; guard (rest = []); pure b : Reader ε σ β)
      fun b' data => b' = b ∧ data = [] := by
  intro data
  cases data with
  | nil =>
    refine ⟨some (b, []), rfl, fun b' => ⟨?_, ?_⟩⟩
    · rintro ⟨rest, h⟩
      exact ⟨(Prod.mk.inj (Option.some.inj h)).1.symm, rfl⟩
    · rintro ⟨rfl, -⟩
      exact ⟨[], rfl⟩
  | cons symbol data =>
    refine ⟨none, rfl, fun b' => ⟨?_, ?_⟩⟩
    · rintro ⟨rest, h⟩
      cases h
    · rintro ⟨-, h⟩
      cases h

end Framing
