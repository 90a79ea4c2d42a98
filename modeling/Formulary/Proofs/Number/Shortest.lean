import Formulary.Number.Decimal
import Formulary.Proofs.Number.Rounding

/-!
# Decimals that are read back

Reading a decimal depends on its value only: zeros moved between the coefficient and the power of
ten change nothing. The exact value of a number is read as that number, and therefore so is its
shortest decimal. A decimal without a fraction is read as an integer.
-/
namespace Formulary

theorem toDigits_mul_pow {c : Nat} (hc : 0 < c) (k : Nat) :
    Nat.toDigits 10 (c * 10 ^ k) = Nat.toDigits 10 c ++ List.replicate k '0' := by
  induction k with
  | zero => rw [pow_zero, Nat.mul_one, List.replicate_zero, List.append_nil]
  | succ k ih =>
    have hpos : 0 < c * 10 ^ k := Nat.mul_pos hc (Nat.pow_pos (by omega))
    have he : c * 10 ^ (k + 1) = 10 * (c * 10 ^ k) + 0 := by rw [pow_succ]; ring
    rw [he, ← Nat.toDigits_append_toDigits (by omega) hpos (by omega), ih, Nat.toDigits_zero,
      List.append_assoc, ← List.replicate_succ']

theorem lt_pow_length_toDigits (n : Nat) : n < 10 ^ (Nat.toDigits 10 n).length :=
  (Nat.length_toDigits_le_iff (by omega) Nat.length_toDigits_pos).1 le_rfl

theorem pow_le_of_length_toDigits {n : Nat} (hn : 0 < n) :
    10 ^ ((Nat.toDigits 10 n).length - 1) ≤ n := by
  rcases Nat.eq_zero_or_pos ((Nat.toDigits 10 n).length - 1) with h0 | h0
  · rw [h0, pow_zero]
    exact hn
  · by_contra h
    have := (Nat.length_toDigits_le_iff (b := 10) (by omega) h0).2 (Nat.lt_of_not_le h)
    omega

namespace Decimal

theorem magnitude_scale (s : Bool) {c : Nat} (hc : 0 < c) (k : Nat) (e : Int) :
    magnitude ⟨s, c * 10 ^ k, e⟩ = magnitude ⟨s, c, e + k⟩ := by
  have hck : c * 10 ^ k ≠ 0 := (Nat.mul_pos hc (Nat.pow_pos (by omega))).ne'
  simp only [magnitude, if_neg hc.ne', if_neg hck, toDigits_mul_pow hc, List.length_append,
    List.length_replicate]
  omega

end Decimal

namespace Binary

variable {f : FloatFormat}

/-- The decimal as a quotient of units, whatever its size. -/
def ratio (f : FloatFormat) (d : Decimal) : Binary f :=
  if 0 ≤ d.exponent then
    ofRatio f d.negative (d.coefficient * 10 ^ d.exponent.toNat * 2 ^ f.scale) 1
  else ofRatio f d.negative (d.coefficient * 2 ^ f.scale) (10 ^ (-d.exponent).toNat)

theorem ofDecimal_eq (d : Decimal) : ofDecimal f d =
    if d.coefficient = 0 ∨ 3 * (d.magnitude + 1) + f.scale + 1 ≤ 0 then zero f d.negative
    else if 0 ≤ d.magnitude ∧ (f.fractionBits + f.binades : Int) ≤ 3 * d.magnitude + f.scale + 1
      then .infinity d.negative
    else ratio f d := rfl

theorem ratio_scale (s : Bool) (c k : Nat) (e : Int) :
    ratio f ⟨s, c * 10 ^ k, e⟩ = ratio f ⟨s, c, e + k⟩ := by
  simp only [ratio]
  rcases le_or_gt 0 e with he | he
  · have hsum : (e + k).toNat = k + e.toNat := by omega
    rw [if_pos he, if_pos (by omega : 0 ≤ e + k), hsum, pow_add, ← Nat.mul_assoc c]
  · rw [if_neg (by omega : ¬ 0 ≤ e)]
    rcases le_or_gt 0 (e + k) with hek | hek
    · have hk : k = (e + k).toNat + (-e).toNat := by omega
      have hnum : c * 10 ^ k * 2 ^ f.scale =
          c * 10 ^ (e + k).toNat * 2 ^ f.scale * 10 ^ (-e).toNat := by
        conv_lhs => rw [hk, pow_add]
        ring
      have h := ofRatio_scale (f := f) s (c * 10 ^ (e + k).toNat * 2 ^ f.scale) 1
        (k := 10 ^ (-e).toNat) (Nat.pow_pos (by omega))
      rw [if_pos hek, hnum, ← h, Nat.one_mul]
    · have hden : 10 ^ (-e).toNat = 10 ^ (-(e + k)).toNat * 10 ^ k := by
        rw [← pow_add]
        congr 1
        omega
      have hnum : c * 10 ^ k * 2 ^ f.scale = c * 2 ^ f.scale * 10 ^ k := by ring
      rw [if_neg (by omega : ¬ 0 ≤ e + k), hden, hnum,
        ofRatio_scale s _ _ (Nat.pow_pos (by omega))]

/-- Zeros at the end of the coefficient count as powers of ten. -/
theorem ofDecimal_scale (s : Bool) (c k : Nat) (e : Int) :
    ofDecimal f ⟨s, c * 10 ^ k, e⟩ = ofDecimal f ⟨s, c, e + k⟩ := by
  rcases Nat.eq_zero_or_pos c with rfl | hc
  · simp [ofDecimal]
  · have hck : c * 10 ^ k ≠ 0 := (Nat.mul_pos hc (Nat.pow_pos (by omega))).ne'
    simp only [ofDecimal_eq, Decimal.magnitude_scale s hc k e, hck, hc.ne', false_or, ratio_scale]

/-- The power of ten in a coefficient of zero means nothing. -/
theorem ofDecimal_zero (s : Bool) (e : Int) : ofDecimal f ⟨s, 0, e⟩ = zero f s := by
  simp [ofDecimal]

theorem negative_of_ofDecimal {d : Decimal} {s : Bool} {r : Fin f.count}
    (h : ofDecimal f d = .finite s r) : d.negative = s := by
  have hr : ∀ num den, ofRatio f d.negative num den = .finite s r → d.negative = s := by
    intro num den h
    unfold ofRatio at h
    split at h
    · exact (finite.inj h).1
    · cases h
  rw [ofDecimal_eq, ratio] at h
  split at h
  · exact hr _ _ h
  · split at h
    · cases h
    · split at h
      · exact hr _ _ h
      · exact hr _ _ h

/-! ## The exact value -/

theorem exact_eq (s : Bool) (rank : Nat) :
    exact f s rank = ⟨s, f.units rank * 5 ^ f.scale, -f.scale⟩ := rfl

theorem coefficient_exact_pos {r : Fin f.count} (h0 : 0 < f.units r) :
    0 < f.units r * 5 ^ f.scale :=
  Nat.mul_pos h0 (Nat.pow_pos (by omega))

theorem magnitude_exact (s : Bool) (r : Fin f.count) (h0 : 0 < f.units r) :
    (exact f s r).magnitude =
      (Nat.toDigits 10 (f.units r * 5 ^ f.scale)).length - 1 - (f.scale : Int) := by
  rw [exact_eq, Decimal.magnitude, if_neg (coefficient_exact_pos h0).ne', ← Int.sub_eq_add_neg]

theorem exact_not_small (s : Bool) (r : Fin f.count) (h0 : 0 < f.units r) :
    ¬ 3 * ((exact f s r).magnitude + 1) + f.scale + 1 ≤ 0 := by
  have hlt := lt_pow_length_toDigits (f.units r * 5 ^ f.scale)
  rw [magnitude_exact s r h0]
  intro hsmall
  generalize (Nat.toDigits 10 (f.units r * 5 ^ f.scale)).length = len at hlt hsmall
  have hlen : 3 * len ≤ 2 * f.scale := by omega
  have hfive : 5 ^ f.scale < 10 ^ len := (Nat.le_mul_of_pos_left _ h0).trans_lt hlt
  have : 125 ^ f.scale < 100 ^ f.scale := by
    calc 125 ^ f.scale = (5 ^ f.scale) ^ 3 := by rw [← pow_mul, Nat.mul_comm, pow_mul]; rfl
      _ < (10 ^ len) ^ 3 := Nat.pow_lt_pow_left hfive (by omega)
      _ = 10 ^ (3 * len) := by rw [← pow_mul, Nat.mul_comm]
      _ ≤ 10 ^ (2 * f.scale) := Nat.pow_le_pow_right (by omega) hlen
      _ = 100 ^ f.scale := by rw [pow_mul]; rfl
  have := Nat.pow_le_pow_left (by omega : 100 ≤ 125) f.scale
  omega

theorem exact_not_large (s : Bool) (r : Fin f.count) (h0 : 0 < f.units r) :
    ¬ (0 ≤ (exact f s r).magnitude ∧
      (f.fractionBits + f.binades : Int) ≤ 3 * (exact f s r).magnitude + f.scale + 1) := by
  have hle := pow_le_of_length_toDigits (coefficient_exact_pos h0)
  have hlen : 0 < (Nat.toDigits 10 (f.units r * 5 ^ f.scale)).length := Nat.length_toDigits_pos
  rw [magnitude_exact s r h0]
  rintro ⟨hm, hlarge⟩
  generalize (Nat.toDigits 10 (f.units r * 5 ^ f.scale)).length = len at hle hlen hm hlarge
  obtain ⟨m, hm'⟩ : ∃ m, len - 1 = m + f.scale := ⟨len - 1 - f.scale, by omega⟩
  have hten : 10 ^ m * 2 ^ f.scale ≤ f.units r := by
    have he : 10 ^ (len - 1) = 10 ^ m * 2 ^ f.scale * 5 ^ f.scale := by
      rw [hm', pow_add, Nat.mul_assoc, ← Nat.mul_pow]
    rw [he] at hle
    exact Nat.le_of_mul_le_mul_right hle (Nat.pow_pos (by omega))
  have height : 2 ^ (3 * m + f.scale) ≤ f.units r := by
    calc 2 ^ (3 * m + f.scale) = 8 ^ m * 2 ^ f.scale := by rw [pow_add, pow_mul]; rfl
      _ ≤ 10 ^ m * 2 ^ f.scale :=
          Nat.mul_le_mul_right _ (Nat.pow_le_pow_left (by omega) m)
      _ ≤ f.units r := hten
  have hlim := f.units_lt_limit r.isLt
  have hpow : 2 ^ (f.fractionBits + f.binades) ≤ 2 ^ (3 * m + f.scale + 1) :=
    Nat.pow_le_pow_right (by omega) (by omega)
  rw [pow_succ] at hpow
  omega

theorem ofDecimal_exact (s : Bool) (r : Fin f.count) : ofDecimal f (exact f s r) = .finite s r := by
  rcases Nat.eq_zero_or_pos (f.units r) with h0 | h0
  · have h := ofRatio_units s r Nat.one_pos
    rw [h0, Nat.zero_mul] at h
    simpa [exact_eq, ofDecimal_eq, h0, zero] using h
  · have hratio : ratio f (exact f s r) = .finite s r := by
      rw [exact_eq]
      rcases Nat.eq_zero_or_pos f.scale with hz | hz
      · have h := ofRatio_units s r Nat.one_pos
        rw [Nat.mul_one] at h
        simpa [ratio, hz] using h
      · have hten : f.units r * 5 ^ f.scale * 2 ^ f.scale = f.units r * 10 ^ f.scale := by
          rw [Nat.mul_assoc, ← Nat.mul_pow]
        have hneg : ¬ 0 ≤ -(f.scale : Int) := by omega
        rw [ratio, if_neg hneg]
        dsimp only
        rw [hten, Int.neg_neg, Int.toNat_natCast]
        exact ofRatio_units s r (Nat.pow_pos (by omega))
    have hsmall : ¬ ((exact f s r).coefficient = 0 ∨
        3 * ((exact f s r).magnitude + 1) + f.scale + 1 ≤ 0) := by
      rintro (h | h)
      · exact (coefficient_exact_pos h0).ne' h
      · exact exact_not_small s r h0 h
    rw [ofDecimal_eq, if_neg hsmall, if_neg (exact_not_large s r h0)]
    exact hratio

theorem ofDecimal_withDigits {x : Binary f} {d d' : Decimal} {n : Nat}
    (h : withDigits? x d n = some d') : ofDecimal f d' = x := by
  simp only [withDigits?] at h
  split at h
  next hbelow habove =>
    split at h
    · exact Option.some.inj h ▸ of_decide_eq_true hbelow
    · exact Option.some.inj h ▸ of_decide_eq_true habove
  next hbelow _ => exact Option.some.inj h ▸ of_decide_eq_true hbelow
  next _ habove => exact Option.some.inj h ▸ of_decide_eq_true habove
  next => cases h

/-- The shortest decimal of a number is read as that number. -/
theorem ofDecimal_shortest (s : Bool) (r : Fin f.count) :
    ofDecimal f (shortest f s r) = .finite s r := by
  rw [shortest]
  cases h : (List.range 17).findSome? fun n =>
      withDigits? (.finite s r) (exact f s r) (n + 1) with
  | none => exact ofDecimal_exact s r
  | some d =>
    obtain ⟨n, _, hd⟩ := List.exists_of_findSome?_eq_some h
    exact ofDecimal_withDigits hd

theorem isIntegral_of_ofDecimal {d : Decimal} {s : Bool} {r : Fin f.count} (he : 0 ≤ d.exponent)
    (h : ofDecimal f d = .finite s r) : (finite s r : Binary f).IsIntegral := by
  obtain rfl := negative_of_ofDecimal h
  rw [ofDecimal_eq, ratio, if_pos he] at h
  split at h
  · apply isIntegral_ofRatio _ 0 r
    rw [Nat.zero_mul]
    exact h
  · split at h
    · cases h
    · exact isIntegral_ofRatio _ _ r h

end Binary

end Formulary
