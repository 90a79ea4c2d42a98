import Formulary.Proofs.Number.Numeral

/-!
# Numbers in formulas are written exactly

The shortest text of a number can be spelled in more than one way: with or without `.0`, with a
power of ten or without. A formula has one text for all of them. It denotes the same number, has a
power of ten only for numbers that are very small or very large, and has no zero too many.
-/
namespace Formulary.Layout

open Numeral (Parts)

theorem exists_parts_exact (d : Decimal) :
    ∃ p : Parts, p.chars = formula.decimal d.magnitude d ∧ p.decimal.Same d ∧ p.Tight ∧
      (p.power? ≠ none ↔ ¬ (formula.positionalFrom ≤ d.magnitude ∧
        d.magnitude < formula.positionalBelow)) := by
  by_cases h : formula.positionalFrom ≤ d.magnitude ∧ d.magnitude < formula.positionalBelow
  · obtain ⟨p, hsign, hchars, hsame, hpower, -, htight⟩ := exists_parts_positional formula d
    refine ⟨p, ?_, hsame, htight rfl, by simp [hpower, h]⟩
    rw [Parts.chars, hsign, hchars, decimal, if_pos h]
  · obtain ⟨p, hsign, hchars, hsame, hpower, htight⟩ := exists_parts_scientific d
    have hc : 0 < d.coefficient := by
      by_contra h0
      rw [Decimal.magnitude, if_pos (Nat.eq_zero_of_not_pos h0)] at h
      exact h (by decide)
    refine ⟨p, ?_, hsame, htight hc, by simp [hpower, h]⟩
    rw [Parts.chars, hsign, hchars, decimal, if_neg h]

theorem not_positional_iff (d : Decimal) :
    ¬ (formula.positionalFrom ≤ d.magnitude ∧ d.magnitude < formula.positionalBelow) ↔
      d.value ≠ 0 ∧ (|d.value| < 10 ^ (-4 : Int) ∨ 10 ^ (21 : Int) ≤ |d.value|) := by
  rw [ne_eq, Decimal.value_eq_zero_iff]
  change ¬ (-4 ≤ d.magnitude ∧ d.magnitude < 21) ↔ _
  rcases Nat.eq_zero_or_pos d.coefficient with h | h
  · rw [Decimal.magnitude, if_pos h]
    simp [h]
  · rw [← Decimal.magnitude_lt_iff h, ← Decimal.le_magnitude_iff h]
    omega

/-- The shortest text of a finite number denotes a decimal `d`, which is the shortest one that is
read back as the number, and the text of the number in formulas has parts that denote the same,
with the same sign. They have a power of ten exactly if the number is not zero and too small or too
large, and no zero of them can be left out. The text hangs on the number that `d` denotes alone: any
other decimal of it has the same text. -/
theorem formula_byDigits_exact {f : FloatFormat} (s : Bool) (r : Fin f.count) :
    ∃ d, Numeral.read? (value.byValue (.finite s r : Binary f)) = some d ∧
      d.Same (Binary.shortest f s r) ∧ Binary.ofDecimal f d = .finite s r ∧
      (∃ p : Parts, p.chars = formula.byDigits (.finite s r : Binary f) ∧
        Numeral.read? p.chars = some p.decimal ∧ p.decimal.Same d ∧ p.Tight ∧
        (p.power? ≠ none ↔
          d.value ≠ 0 ∧ (|d.value| < 10 ^ (-4 : Int) ∨ 10 ^ (21 : Int) ≤ |d.value|))) ∧
      ∀ d', d'.Same d →
        formula.decimal d'.magnitude d' = formula.byDigits (.finite s r : Binary f) := by
  obtain ⟨q, hshown, hq, -⟩ := exists_parts value (Binary.exact f s r).magnitude
    (Binary.shortest f s r)
  obtain ⟨p, hchars, hp, htight, hpower⟩ := exists_parts_exact (Binary.shortest f s r)
  have hbyDigits := formula_byDigits_finite (f := f) s r
  refine ⟨q.decimal, ?_, hq, ?_, ⟨p, hchars.trans hbyDigits.symm, p.read?_chars, hp.trans hq.symm,
    htight, ?_⟩, ?_⟩
  · rw [← q.read?_chars, hshown, byValue]
  · rw [hq.ofDecimal_eq, Binary.ofDecimal_shortest]
  · rw [hpower, not_positional_iff, hq.2]
  · intro d' hd'
    rw [hbyDigits]
    exact formula_decimal_congr (hd'.trans hq)

/-- A number of 32 bits just below `0.0001`, whose shortest text has a power of ten. -/
example :
    let x : Binary .single := .finite false ⟨953267991, by decide +kernel⟩
    value.byValue x = "1e-04".toList ∧ formula.byDigits x = "0.0001".toList := by
  decide +kernel

end Formulary.Layout
