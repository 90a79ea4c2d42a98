import Formulary.Proofs.Number.Shortest

/-!
# Rounding keeps order

A larger quotient never has a smaller nearest rank, and ranks are ordered as their numbers are. So
a decimal on one side of a number of the format is read as a number on the same side.
-/
namespace Formulary

theorem roundHalfEven_mono {num num' : Nat} (h : num ≤ num') (den : Nat) :
    roundHalfEven num den ≤ roundHalfEven num' den := by
  have hq : num / den ≤ num' / den := Nat.div_le_div_right h
  by_cases hlt : num / den < num' / den
  · have hle := roundHalfEven_le num den
    have hge := div_le_roundHalfEven num' den
    omega
  · have he : num / den = num' / den := by omega
    have hr : num % den ≤ num' % den := by
      have h₁ := Nat.div_add_mod num den
      have h₂ := Nat.div_add_mod num' den
      rw [he] at h₁
      omega
    unfold roundHalfEven
    dsimp only
    rw [he]
    split_ifs <;> omega

namespace FloatFormat

variable (f : FloatFormat)

theorem nearest_mono {num num' : Nat} (h : num ≤ num') (den : Nat) :
    f.nearest num den ≤ f.nearest num' den := by
  have hb : f.binade num den ≤ f.binade num' den := by
    unfold binade
    have hq : num / den ≤ num' / den := Nat.div_le_div_right h
    by_cases h0 : num / den = 0
    · rw [h0, Nat.log2_zero, Nat.zero_sub]
      exact Nat.zero_le _
    · have h0' : num' / den ≠ 0 := ((Nat.pos_of_ne_zero h0).trans_le hq).ne'
      have hlog := (Nat.le_log2 h0').2 ((Nat.log2_self_le h0).trans hq)
      omega
  rw [nearest_eq, nearest_eq]
  by_cases he : f.binade num den = f.binade num' den
  · rw [he]
    exact Nat.add_le_add_left (roundHalfEven_mono h _) _
  · -- the last rank of one binade is not above the first rank of the next
    have hlow : roundHalfEven num (den * 2 ^ f.binade num den) ≤ 2 * f.perBinade := by
      have := roundHalfEven_le num (den * 2 ^ f.binade num den)
      have := f.quotient_lt num den
      omega
    have hhigh : f.perBinade ≤ roundHalfEven num' (den * 2 ^ f.binade num' den) := by
      have hne : f.binade num' den ≠ 0 := by omega
      exact (f.le_quotient hne).trans (div_le_roundHalfEven _ _)
    have hstep : (f.binade num den + 1) * f.perBinade ≤ f.binade num' den * f.perBinade :=
      Nat.mul_le_mul_right _ (by omega)
    rw [Nat.add_mul, Nat.one_mul] at hstep
    omega

theorem nearest_le_nearest {num den num' den' : Nat} (hd : 0 < den) (hd' : 0 < den')
    (h : num * den' ≤ num' * den) : f.nearest num den ≤ f.nearest num' den' := by
  rw [← f.nearest_scale num den hd', ← f.nearest_scale num' den' hd, Nat.mul_comm den' den]
  exact f.nearest_mono h _

theorem units_le_units {rank rank' : Nat} (h : rank ≤ rank') : f.units rank ≤ f.units rank' := by
  by_contra hlt
  have hle : rank' ≤ rank := by
    have hmono := f.nearest_mono (Nat.le_of_not_le hlt) 1
    have h₁ := f.nearest_units rank Nat.one_pos
    have h₂ := f.nearest_units rank' Nat.one_pos
    rw [Nat.mul_one] at h₁ h₂
    rwa [h₁, h₂] at hmono
  rw [Nat.le_antisymm h hle] at hlt
  exact hlt le_rfl

theorem units_zero : f.units 0 = 0 := f.units_of_lt f.perBinade_pos

theorem nearest_zero : f.nearest 0 1 = 0 := by
  have h := f.nearest_units 0 Nat.one_pos
  rwa [units_zero] at h

theorem rank_eq_zero {rank : Nat} (h : f.units rank = 0) : rank = 0 := by
  rw [← f.nearest_units rank Nat.one_pos, h, Nat.zero_mul, nearest_zero]

end FloatFormat

namespace Binary

variable {f : FloatFormat} {s : Bool} {r : Fin f.count}

theorem nearest_of_ofRatio {s' : Bool} {num den : Nat} (h : ofRatio f s' num den = .finite s r) :
    f.nearest num den = r := by
  unfold ofRatio at h
  split at h
  · exact congrArg Fin.val (finite.inj h).2
  · cases h

/-- A decimal below a power of ten is read as a number that is not above it. -/
theorem le_nearest_of_ofDecimal {d : Decimal} {limit : Nat} (hm : d.magnitude < limit)
    (h : ofDecimal f d = .finite s r) : r ≤ f.nearest (10 ^ limit * 2 ^ f.scale) 1 := by
  obtain ⟨s', c, e⟩ := d
  rw [ofDecimal_eq] at h
  dsimp only at h
  split_ifs at h with hsmall hlarge
  · rw [← nearest_of_ofRatio h]
    exact f.nearest_mono (Nat.zero_le _) 1
  · have hc : c ≠ 0 := fun hc => hsmall (.inl hc)
    have hlt := lt_pow_length_toDigits c
    have hlen : (Nat.toDigits 10 c).length + e ≤ limit := by
      rw [Decimal.magnitude, if_neg hc] at hm
      dsimp only at hm
      omega
    rw [ratio] at h
    dsimp only at h
    split_ifs at h with he
    · rw [← nearest_of_ofRatio h]
      apply f.nearest_mono
      apply Nat.mul_le_mul_right
      calc c * 10 ^ e.toNat ≤ 10 ^ (Nat.toDigits 10 c).length * 10 ^ e.toNat :=
            Nat.mul_le_mul_right _ hlt.le
        _ = 10 ^ ((Nat.toDigits 10 c).length + e.toNat) := (pow_add _ _ _).symm
        _ ≤ 10 ^ limit := Nat.pow_le_pow_right (by omega) (by omega)
    · rw [← nearest_of_ofRatio h]
      apply f.nearest_le_nearest (Nat.pow_pos (by omega)) Nat.one_pos
      calc c * 2 ^ f.scale * 1 ≤ 10 ^ (limit + (-e).toNat) * 2 ^ f.scale * 1 := by
            apply Nat.mul_le_mul_right
            apply Nat.mul_le_mul_right
            exact hlt.le.trans (Nat.pow_le_pow_right (by omega) (by omega))
        _ = 10 ^ limit * 2 ^ f.scale * 10 ^ (-e).toNat := by rw [pow_add]; ring

/-- An integer from some positive one on is read as a number from there on. -/
theorem nearest_le_of_ofDecimal {s' : Bool} {c e n : Nat} (hn : 0 < n) (hle : n ≤ c * 10 ^ e)
    (h : ofDecimal f ⟨s', c, e⟩ = .finite s r) : f.nearest (n * 2 ^ f.scale) 1 ≤ r := by
  have hc : c ≠ 0 := by
    rintro rfl
    rw [Nat.zero_mul] at hle
    omega
  have hm : 0 ≤ Decimal.magnitude ⟨s', c, e⟩ := by
    have := Nat.length_toDigits_pos (b := 10) (n := c)
    rw [Decimal.magnitude, if_neg hc]
    dsimp only
    omega
  rw [ofDecimal_eq] at h
  dsimp only at h
  split_ifs at h with hsmall hlarge
  · rcases hsmall with hzero | hsmall
    · exact absurd hzero hc
    · omega
  · rw [ratio, if_pos (Int.natCast_nonneg e)] at h
    rw [← nearest_of_ofRatio h]
    apply f.nearest_mono
    apply Nat.mul_le_mul_right
    rwa [Int.toNat_natCast]

theorem ofInt?_eq_none {n : Int} :
    ofInt? f n = none ↔ f.count ≤ f.nearest (n.natAbs * Nat.pow 2 f.scale) 1 := by
  rw [ofInt?, ofRatio]
  by_cases h : f.nearest (n.natAbs * Nat.pow 2 f.scale) 1 < f.count
  · rw [dif_pos h]
    exact ⟨fun hfinite => (by cases hfinite), fun hle => absurd hle (Nat.not_le.2 h)⟩
  · rw [dif_neg h]
    exact ⟨fun _ => Nat.not_lt.1 h, fun _ => rfl⟩

/-- The integers that lie beyond the finite numbers begin at a limit. -/
theorem ofInt?_eq_none_iff {limit : Nat} {n : Int}
    (hbelow : f.nearest ((limit - 1) * Nat.pow 2 f.scale) 1 < f.count)
    (hlimit : f.count ≤ f.nearest (limit * Nat.pow 2 f.scale) 1) :
    ofInt? f n = none ↔ limit ≤ n.natAbs := by
  rw [ofInt?_eq_none]
  constructor
  · intro h
    by_contra hlt
    have hle : n.natAbs ≤ limit - 1 := by omega
    have hmono := f.nearest_mono (Nat.mul_le_mul_right (Nat.pow 2 f.scale) hle) 1
    omega
  · intro h
    exact hlimit.trans (f.nearest_mono (Nat.mul_le_mul_right _ h) 1)

/-- For doubles the limit is the middle between the greatest one and the next power of two. -/
theorem ofInt?_double_eq_none_iff {n : Int} :
    ofInt? .double n = none ↔ 2 ^ 1024 - 2 ^ 970 ≤ n.natAbs :=
  ofInt?_eq_none_iff (by decide +kernel) (by decide +kernel)

end Binary

end Formulary
