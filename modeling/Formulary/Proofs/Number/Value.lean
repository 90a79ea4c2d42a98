import Formulary.Proofs.Number.Shortest
import Mathlib.Algebra.Order.Field.Power
import Mathlib.Data.Rat.Cast.Order

/-!
# The value of decimals

Decimals denote the same number if they differ by zeros that are moved between the coefficient and
the power of ten, and in no other way. So whatever depends on the number alone is the same for
them: what they are read as, their significant digits and their magnitude.
-/
namespace Formulary.Decimal

/-- The number that the decimal denotes. -/
def value (d : Decimal) : ℚ := (if d.negative then -1 else 1) * (d.coefficient * 10 ^ d.exponent)

/-- The decimals denote the same number, and have the same sign if it is zero. -/
def Same (d d' : Decimal) : Prop := d.negative = d'.negative ∧ d.value = d'.value

variable {d d' d'' : Decimal}

theorem Same.refl (d : Decimal) : d.Same d := ⟨rfl, rfl⟩

theorem Same.symm (h : d.Same d') : d'.Same d := ⟨h.1.symm, h.2.symm⟩

theorem Same.trans (h : d.Same d') (h' : d'.Same d'') : d.Same d'' :=
  ⟨h.1.trans h'.1, h.2.trans h'.2⟩

theorem abs_value (d : Decimal) : |d.value| = d.coefficient * 10 ^ d.exponent := by
  have hpos : (0 : ℚ) ≤ d.coefficient * 10 ^ d.exponent := by positivity
  unfold value
  split <;> simp [abs_of_nonneg hpos]

theorem value_eq_zero_iff : d.value = 0 ↔ d.coefficient = 0 := by
  rw [← abs_eq_zero, abs_value]
  simp [zpow_ne_zero]

theorem same_scale (s : Bool) (c k : Nat) (e : Int) : Same ⟨s, c * 10 ^ k, e⟩ ⟨s, c, e + k⟩ := by
  refine ⟨rfl, ?_⟩
  have hpow : (10 : ℚ) ^ (e + k) = 10 ^ k * 10 ^ e := by
    rw [zpow_add₀ (by norm_num), zpow_natCast, mul_comm]
  simp only [value, hpow]
  push_cast
  ring

theorem same_zero (s : Bool) (e e' : Int) : Same ⟨s, 0, e⟩ ⟨s, 0, e'⟩ := by
  refine ⟨rfl, ?_⟩
  simp [value]

/-- Of two decimals of the same number, that with the lower power of ten has more zeros. -/
theorem Same.exists_scale (h : d.Same d') (hle : d.exponent ≤ d'.exponent) :
    ∃ k : Nat, d'.exponent = d.exponent + k ∧ d.coefficient = d'.coefficient * 10 ^ k := by
  obtain ⟨k, hk⟩ := Int.le.dest hle
  refine ⟨k, hk.symm, ?_⟩
  have habs := congrArg abs h.2
  rw [abs_value, abs_value, ← hk, zpow_add₀ (by norm_num), zpow_natCast] at habs
  have hpos : (10 : ℚ) ^ d.exponent ≠ 0 := zpow_ne_zero _ (by norm_num)
  have hval : (d.coefficient : ℚ) = d'.coefficient * 10 ^ k := by
    apply mul_right_cancel₀ hpos
    rw [habs]
    ring
  exact_mod_cast hval

/-- What does not change with zeros that are moved depends on the number alone. -/
theorem Same.eq_of_scale {α : Type} {g : Decimal → α} (h : d.Same d')
    (hg : ∀ s c k e, g ⟨s, c * 10 ^ k, e⟩ = g ⟨s, c, e + (k : Nat)⟩) : g d = g d' := by
  wlog hle : d.exponent ≤ d'.exponent generalizing d d'
  · exact (this h.symm (by omega)).symm
  · obtain ⟨k, he, hc⟩ := h.exists_scale hle
    obtain ⟨hsign, -⟩ := h
    obtain ⟨s, c, e⟩ := d
    obtain ⟨s', c', e'⟩ := d'
    dsimp only at hsign hc he
    subst hsign hc he
    exact hg s c' k e

theorem Same.ofDecimal_eq (h : d.Same d') (f : FloatFormat) :
    Binary.ofDecimal f d = Binary.ofDecimal f d' :=
  h.eq_of_scale fun s c k e => Binary.ofDecimal_scale s c k e

theorem Same.magnitude_eq (h : d.Same d') : d.magnitude = d'.magnitude := by
  apply h.eq_of_scale
  intro s c k e
  rcases Nat.eq_zero_or_pos c with rfl | hc
  · rw [Nat.zero_mul]
    rfl
  · exact magnitude_scale s hc k e

theorem digits_scale (s : Bool) (c k : Nat) (e e' : Int) :
    digits ⟨s, c * 10 ^ k, e⟩ = digits ⟨s, c, e'⟩ := by
  rcases Nat.eq_zero_or_pos c with rfl | hc
  · rw [Nat.zero_mul]
    rfl
  · unfold digits
    dsimp only
    rw [toDigits_mul_pow hc, List.reverse_append, List.reverse_replicate,
      List.dropWhile_append_of_pos]
    intro c hc
    rw [List.eq_of_mem_replicate hc]
    rfl

theorem Same.digits_eq (h : d.Same d') : d.digits = d'.digits :=
  h.eq_of_scale fun s c k e => digits_scale s c k e (e + k)

/-! ## Magnitudes -/

theorem magnitude_bounds (h : 0 < d.coefficient) :
    10 ^ d.magnitude ≤ |d.value| ∧ |d.value| < 10 ^ (d.magnitude + 1) := by
  have hlength := Nat.length_toDigits_pos (b := 10) (n := d.coefficient)
  have hlow : (10 : ℚ) ^ ((Nat.toDigits 10 d.coefficient).length - 1) ≤ d.coefficient := by
    exact_mod_cast pow_le_of_length_toDigits h
  have hhigh : (d.coefficient : ℚ) < 10 ^ (Nat.toDigits 10 d.coefficient).length := by
    exact_mod_cast lt_pow_length_toDigits d.coefficient
  have hpos : (0 : ℚ) < 10 ^ d.exponent := zpow_pos (by norm_num) _
  have hmagnitude : d.magnitude =
      ((Nat.toDigits 10 d.coefficient).length - 1 : Nat) + d.exponent := by
    rw [magnitude, if_neg h.ne']
    omega
  have hnext : d.magnitude + 1 = (Nat.toDigits 10 d.coefficient).length + d.exponent := by
    omega
  rw [abs_value, hnext, hmagnitude, zpow_add₀ (by norm_num), zpow_add₀ (by norm_num),
    zpow_natCast, zpow_natCast]
  exact ⟨mul_le_mul_of_nonneg_right hlow hpos.le, mul_lt_mul_of_pos_right hhigh hpos⟩

theorem magnitude_lt_iff (h : 0 < d.coefficient) (m : Int) :
    d.magnitude < m ↔ |d.value| < 10 ^ m := by
  obtain ⟨hlow, hhigh⟩ := magnitude_bounds h
  constructor
  · intro hlt
    exact hhigh.trans_le (zpow_le_zpow_right₀ (by norm_num) hlt)
  · intro hlt
    by_contra hle
    have hpow : (10 : ℚ) ^ m ≤ 10 ^ d.magnitude := zpow_le_zpow_right₀ (by norm_num) (by omega)
    exact absurd hlt (not_lt.2 (hpow.trans hlow))

theorem le_magnitude_iff (h : 0 < d.coefficient) (m : Int) :
    m ≤ d.magnitude ↔ 10 ^ m ≤ |d.value| := by
  rw [← not_lt, magnitude_lt_iff h, not_lt]

end Formulary.Decimal
