import Formulary.Outcome
import Mathlib.Data.List.Forall2
import Mathlib.Tactic.Basic

/-!
# Related outcomes

One computation for each item of a list gives related results. Two computations agree if both
succeed or both fail, and what they give is related.
-/
namespace Formulary

/-! ## One computation for each item -/

theorem exists_forall₂_iff {α β : Type} {r : α → β → Prop} {as : List α} :
    (∃ bs, List.Forall₂ r as bs) ↔ ∀ a ∈ as, ∃ b, r a b := by
  induction as with
  | nil => simp
  | cons a as ih =>
    rw [List.forall_mem_cons, ← ih]
    constructor
    · rintro ⟨_, _ | ⟨hab, has⟩⟩
      exact ⟨⟨_, hab⟩, _, has⟩
    · rintro ⟨⟨b, hab⟩, bs, has⟩
      exact ⟨b :: bs, .cons hab has⟩

/-- What stands behind an element of the second of two lists that are related. -/
theorem exists_mem_of_forall₂ {α β : Type} {r : α → β → Prop} {as : List α} {bs : List β}
    (h : List.Forall₂ r as bs) : ∀ b ∈ bs, ∃ a ∈ as, r a b := by
  have hmem := (List.forall₂_and_left _ _).2 ⟨fun _ ha => ha, h⟩
  intro b hb
  obtain ⟨a, ha, hab⟩ := exists_forall₂_iff.1 ⟨_, hmem.flip⟩ b hb
  exact ⟨a, ha, hab⟩

theorem exists_getElem?_of_forall₂ {α β : Type} {r : α → β → Prop} {as : List α} {bs : List β}
    (h : List.Forall₂ r as bs) {i : Nat} {a : α} (ha : as[i]? = some a) :
    ∃ b, bs[i]? = some b ∧ r a b := by
  induction h generalizing i with
  | nil => cases ha
  | @cons _ b _ _ hab _ ih =>
    cases i with
    | zero =>
      cases ha
      exact ⟨b, rfl, hab⟩
    | succ i => exact ih ha

theorem forall₂_iff_getElem? {α β : Type} {r : α → β → Prop} {as : List α} {bs : List β} :
    List.Forall₂ r as bs ↔
      bs.length = as.length ∧
        ∀ (i : Nat) (a : α), as[i]? = some a → ∃ b, bs[i]? = some b ∧ r a b := by
  constructor
  · intro h
    exact ⟨h.length_eq.symm, fun i a ha => exists_getElem?_of_forall₂ h ha⟩
  · rintro ⟨hlength, h⟩
    rw [List.forall₂_iff_get]
    refine ⟨hlength.symm, fun i has hbs => ?_⟩
    obtain ⟨b, hb, hab⟩ := h i _ (List.getElem?_eq_getElem has)
    obtain ⟨_, rfl⟩ := List.getElem?_eq_some_iff.1 hb
    exact hab

/-! ## Two computations -/

variable {ε ε' α β : Type} {x : Except ε α}

/-- Both computations succeed with related results, or both fail with related errors. -/
inductive Agree (fails : ε → ε → Prop) (gives : α → α → Prop) :
    Except ε α → Except ε α → Prop where
  | ok {a b : α} (h : gives a b) : Agree fails gives (.ok a) (.ok b)
  | error {d e : ε} (h : fails d e) : Agree fails gives (.error d) (.error e)

namespace Agree

variable {fails : ε → ε → Prop} {gives : α → α → Prop} {y : Except ε α}

theorem map {gives' : β → β → Prop} {f g : α → β} (h : Agree fails gives x y)
    (hfg : ∀ a b, gives a b → gives' (f a) (g b)) : Agree fails gives' (x.map f) (y.map g) := by
  cases h with
  | ok h => exact .ok (hfg _ _ h)
  | error h => exact .error h

theorem mapError {fails' : ε' → ε' → Prop} {f g : ε → ε'} (h : Agree fails gives x y)
    (hfg : ∀ d e, fails d e → fails' (f d) (g e)) :
    Agree fails' gives (x.mapError f) (y.mapError g) := by
  cases h with
  | ok h => exact .ok h
  | error h => exact .error (hfg _ _ h)

theorem bind {gives' : β → β → Prop} {f g : α → Except ε β} (h : Agree fails gives x y)
    (hfg : ∀ a b, gives a b → Agree fails gives' (f a) (g b)) :
    Agree fails gives' (x >>= f) (y >>= g) := by
  cases h with
  | ok h => exact hfg _ _ h
  | error h => exact .error h

end Agree

end Formulary
