import Formulary.Number.Binary
import Mathlib.Tactic.Linarith
import Mathlib.Tactic.Ring

/-!
# Rounding to the ranks of a format

The nearest rank of a quotient does not change when numerator and denominator are scaled alike. A
number of the format is its own nearest one, so a conversion into a wider format can be undone.
The number that a quotient is rounded to is a multiple of the distance between neighbours at its
place.
-/
namespace Formulary

theorem roundHalfEven_mul (q : Nat) {den : Nat} (hd : 0 < den) :
    roundHalfEven (q * den) den = q := by
  simp [roundHalfEven, hd]

theorem roundHalfEven_scale (num den : Nat) {k : Nat} (hk : 0 < k) :
    roundHalfEven (num * k) (den * k) = roundHalfEven num den := by
  have hq : num * k / (den * k) = num / den := Nat.mul_div_mul_right num den hk
  have hr : num * k % (den * k) = num % den * k := Nat.mul_mod_mul_right k num den
  have hlt : 2 * (num % den * k) < den * k ↔ 2 * (num % den) < den := by
    rw [← mul_assoc, Nat.mul_lt_mul_right hk]
  have hgt : den * k < 2 * (num % den * k) ↔ den < 2 * (num % den) := by
    rw [← mul_assoc, Nat.mul_lt_mul_right hk]
  simp only [roundHalfEven, hq, hr, hlt, hgt]

theorem div_le_roundHalfEven (num den : Nat) : num / den ≤ roundHalfEven num den := by
  unfold roundHalfEven
  dsimp only
  split_ifs <;> omega

theorem roundHalfEven_le (num den : Nat) : roundHalfEven num den ≤ num / den + 1 := by
  unfold roundHalfEven
  dsimp only
  split_ifs <;> omega

theorem log2_mul_two_pow {n : Nat} (h : n ≠ 0) (k : Nat) : (n * 2 ^ k).log2 = n.log2 + k := by
  induction k with
  | zero => rw [pow_zero, Nat.mul_one, Nat.add_zero]
  | succ k ih =>
    have h0 : n * 2 ^ k ≠ 0 := Nat.mul_ne_zero h (Nat.two_pow_pos k).ne'
    rw [pow_succ', Nat.mul_left_comm, Nat.log2_two_mul h0, ih, Nat.add_assoc]

namespace FloatFormat

variable (f : FloatFormat)

theorem perBinade_eq : f.perBinade = 2 ^ f.fractionBits := rfl

theorem perBinade_pos : 0 < f.perBinade := Nat.two_pow_pos _

theorem units_of_lt {rank : Nat} (h : rank < f.perBinade) : f.units rank = rank := if_pos h

theorem units_of_not_lt {rank : Nat} (h : ¬ rank < f.perBinade) :
    f.units rank = (f.perBinade + rank % f.perBinade) * 2 ^ (rank / f.perBinade - 1) := if_neg h

/-- From the second binade on, a rank is a binade and a significand. -/
theorem units_binade (k : Nat) {m : Nat} (hm : f.perBinade ≤ m) (hm' : m < 2 * f.perBinade) :
    f.units (k * f.perBinade + m) = m * 2 ^ k := by
  have hpos := f.perBinade_pos
  obtain ⟨s, rfl⟩ := Nat.exists_eq_add_of_le hm
  have hs : s < f.perBinade := by omega
  have he : k * f.perBinade + (f.perBinade + s) = s + f.perBinade * (k + 1) := by ring
  have hnot : ¬ k * f.perBinade + (f.perBinade + s) < f.perBinade := by omega
  rw [f.units_of_not_lt hnot, he, Nat.add_mul_mod_self_left, Nat.add_mul_div_left _ _ hpos,
    Nat.mod_eq_of_lt hs, Nat.div_eq_of_lt hs, Nat.zero_add, Nat.add_sub_cancel]

/-- The first number of a binade may be written as the significand that closes the one below. -/
theorem units_binade_top (k : Nat) :
    f.units (k * f.perBinade + 2 * f.perBinade) = 2 * f.perBinade * 2 ^ k := by
  have h := f.units_binade (k + 1) le_rfl (by have := f.perBinade_pos; omega)
  have he : k * f.perBinade + 2 * f.perBinade = (k + 1) * f.perBinade + f.perBinade := by ring
  rw [he, h]
  ring

theorem rank_cases (rank : Nat) : rank < f.perBinade ∨
    ∃ k m, f.perBinade ≤ m ∧ m < 2 * f.perBinade ∧ rank = k * f.perBinade + m := by
  by_cases h : rank < f.perBinade
  · exact Or.inl h
  · refine Or.inr ⟨rank / f.perBinade - 1, f.perBinade + rank % f.perBinade, by omega, ?_, ?_⟩
    · have := Nat.mod_lt rank f.perBinade_pos
      omega
    · have hq : 1 ≤ rank / f.perBinade := (Nat.one_le_div_iff f.perBinade_pos).2 (by omega)
      have hr := Nat.div_add_mod rank f.perBinade
      obtain ⟨q, hq'⟩ := Nat.exists_eq_add_of_le hq
      rw [hq', Nat.add_sub_cancel_left]
      rw [hq'] at hr
      linarith

/-- The binade of a quotient, counted from the binades that have the unit as distance. -/
def binade (num den : Nat) : Nat := (num / den).log2 - f.fractionBits

theorem nearest_eq (num den : Nat) : f.nearest num den =
    f.binade num den * f.perBinade + roundHalfEven num (den * 2 ^ f.binade num den) := rfl

theorem quotient_lt (num den : Nat) : num / (den * 2 ^ f.binade num den) < 2 * f.perBinade := by
  rw [← Nat.div_div_eq_div_mul, Nat.div_lt_iff_lt_mul (Nat.two_pow_pos _)]
  have hle : (num / den).log2 + 1 ≤ 1 + f.fractionBits + f.binade num den := by
    unfold binade
    omega
  calc num / den < 2 ^ ((num / den).log2 + 1) := Nat.lt_log2_self
    _ ≤ 2 ^ (1 + f.fractionBits + f.binade num den) := Nat.pow_le_pow_right (by omega) hle
    _ = 2 * f.perBinade * 2 ^ f.binade num den := by rw [pow_add, pow_add, pow_one, perBinade_eq]

theorem le_quotient {num den : Nat} (hb : f.binade num den ≠ 0) :
    f.perBinade ≤ num / (den * 2 ^ f.binade num den) := by
  rw [← Nat.div_div_eq_div_mul, Nat.le_div_iff_mul_le (Nat.two_pow_pos _), perBinade_eq, ← pow_add]
  have hsum : f.fractionBits + f.binade num den = (num / den).log2 := by
    unfold binade at hb ⊢
    omega
  rw [hsum]
  apply Nat.log2_self_le
  intro h0
  simp [binade, h0] at hb

theorem nearest_scale (num den : Nat) {k : Nat} (hk : 0 < k) :
    f.nearest (num * k) (den * k) = f.nearest num den := by
  have hb : f.binade (num * k) (den * k) = f.binade num den := by
    rw [binade, Nat.mul_div_mul_right num den hk, binade]
  have hd : den * k * 2 ^ f.binade num den = den * 2 ^ f.binade num den * k := by ring
  rw [nearest_eq, nearest_eq, hb, hd, roundHalfEven_scale _ _ hk]

/-- The nearest number is a multiple of the distance between neighbours at its place. -/
theorem units_nearest (num den : Nat) : f.units (f.nearest num den) =
    roundHalfEven num (den * 2 ^ f.binade num den) * 2 ^ f.binade num den := by
  have hlt := f.quotient_lt num den
  have hle := roundHalfEven_le num (den * 2 ^ f.binade num den)
  have hge := div_le_roundHalfEven num (den * 2 ^ f.binade num den)
  rw [nearest_eq]
  generalize hm : roundHalfEven num (den * 2 ^ f.binade num den) = m at hle hge
  by_cases h : m < f.perBinade
  · have hb : f.binade num den = 0 := by
      by_contra hb
      have := f.le_quotient hb
      omega
    rw [hb, Nat.zero_mul, Nat.zero_add, f.units_of_lt h, pow_zero, Nat.mul_one]
  · by_cases h' : m < 2 * f.perBinade
    · exact f.units_binade _ (by omega) h'
    · obtain rfl : m = 2 * f.perBinade := by omega
      exact f.units_binade_top _

theorem log2_significand {m : Nat} (hm : f.perBinade ≤ m) (hm' : m < 2 * f.perBinade) (k : Nat) :
    (m * 2 ^ k).log2 = f.fractionBits + k := by
  have hpos := f.perBinade_pos
  have h0 : m ≠ 0 := by omega
  have he : 2 ^ (f.fractionBits + 1) = 2 * f.perBinade := by
    rw [pow_succ, Nat.mul_comm, perBinade_eq]
  rw [log2_mul_two_pow h0, (Nat.log2_eq_iff h0).2 ⟨hm, by rw [he]; exact hm'⟩]

theorem log2_lt_fractionBits {n : Nat} (hn : n < f.perBinade) : n.log2 ≤ f.fractionBits := by
  rcases Nat.eq_zero_or_pos n with rfl | h0
  · simp
  · have := (Nat.log2_lt h0.ne').2 hn
    omega

/-- A number of the format is the nearest one to itself. -/
theorem nearest_units (rank : Nat) {den : Nat} (hd : 0 < den) :
    f.nearest (f.units rank * den) den = rank := by
  have hdiv : f.units rank * den / den = f.units rank := Nat.mul_div_cancel _ hd
  rcases f.rank_cases rank with h | ⟨k, m, hm, hm', rfl⟩
  · have hb : f.binade (f.units rank * den) den = 0 := by
      have := f.log2_lt_fractionBits h
      rw [binade, hdiv, f.units_of_lt h]
      omega
    rw [nearest_eq, hb, f.units_of_lt h, pow_zero, Nat.mul_one, roundHalfEven_mul _ hd]
    omega
  · have hb : f.binade (f.units (k * f.perBinade + m) * den) den = k := by
      rw [binade, hdiv, f.units_binade k hm hm', f.log2_significand hm hm' k]
      omega
    have he : m * 2 ^ k * den = m * (den * 2 ^ k) := by ring
    rw [nearest_eq, hb, f.units_binade k hm hm', he,
      roundHalfEven_mul m (Nat.mul_pos hd (Nat.two_pow_pos k))]

/-- A multiple of the distance between neighbours at its place is met exactly. -/
theorem units_nearest_of_dvd {n den : Nat} (hd : 0 < den)
    (hn : 2 ^ (n.log2 - f.fractionBits) ∣ n) : f.units (f.nearest (n * den) den) = n := by
  have hb : f.binade (n * den) den = n.log2 - f.fractionBits := by
    rw [binade, Nat.mul_div_cancel _ hd]
  obtain ⟨q, hq⟩ := hn
  have he : n * den = q * (den * 2 ^ (n.log2 - f.fractionBits)) := by
    conv_lhs => rw [hq]
    ring
  rw [units_nearest, hb, he, roundHalfEven_mul q (Nat.mul_pos hd (Nat.two_pow_pos _)), Nat.mul_comm]
  exact hq.symm

/-- A whole number of `2 ^ scale` units is rounded to one. -/
theorem dvd_units_nearest (n scale : Nat) :
    2 ^ scale ∣ f.units (f.nearest (n * 2 ^ scale) 1) := by
  by_cases h : f.binade (n * 2 ^ scale) 1 < scale
  · have hdvd : 2 ^ ((n * 2 ^ scale).log2 - f.fractionBits) ∣ n * 2 ^ scale := by
      rw [binade, Nat.div_one] at h
      exact (Nat.pow_dvd_pow 2 h.le).trans (Nat.dvd_mul_left _ _)
    have he := f.units_nearest_of_dvd Nat.one_pos hdvd
    rw [Nat.mul_one] at he
    rw [he]
    exact Nat.dvd_mul_left _ _
  · rw [units_nearest]
    exact (Nat.pow_dvd_pow 2 (by omega)).trans (Nat.dvd_mul_left _ _)

/-- The distance between neighbours at a number divides the number. -/
theorem dvd_units (rank : Nat) : ∃ k, 2 ^ k ∣ f.units rank ∧
    (f.units rank).log2 ≤ f.fractionBits + k := by
  rcases f.rank_cases rank with h | ⟨k, m, hm, hm', rfl⟩
  · refine ⟨0, Nat.one_dvd _, ?_⟩
    rw [f.units_of_lt h]
    exact f.log2_lt_fractionBits h
  · refine ⟨k, ?_, ?_⟩
    · rw [f.units_binade k hm hm']
      exact Nat.dvd_mul_left _ _
    · rw [f.units_binade k hm hm', f.log2_significand hm hm' k]

theorem units_lt_limit {rank : Nat} (h : rank < f.count) :
    2 * f.units rank < 2 ^ (f.fractionBits + f.binades) := by
  have hpos := f.perBinade_pos
  have hb : 0 < f.binades := Nat.pos_of_mul_pos_right (Nat.zero_lt_of_lt h)
  rcases f.rank_cases rank with hr | ⟨k, m, hm, hm', rfl⟩
  · rw [f.units_of_lt hr]
    calc 2 * rank < 2 * f.perBinade := by omega
      _ = 2 ^ (f.fractionBits + 1) := by rw [perBinade_eq, pow_succ, Nat.mul_comm]
      _ ≤ 2 ^ (f.fractionBits + f.binades) := Nat.pow_le_pow_right (by omega) (by omega)
  · have hk : k + 1 < f.binades := by
      by_contra hk
      have h1 : f.binades * f.perBinade ≤ (k + 1) * f.perBinade :=
        Nat.mul_le_mul_right _ (by omega)
      have h2 : (k + 1) * f.perBinade = k * f.perBinade + f.perBinade := by ring
      rw [count] at h
      omega
    rw [f.units_binade k hm hm']
    calc 2 * (m * 2 ^ k) < 2 * (2 * f.perBinade * 2 ^ k) := by
          have := Nat.mul_lt_mul_of_pos_right hm' (Nat.two_pow_pos k)
          omega
      _ = 2 ^ (f.fractionBits + (k + 2)) := by rw [perBinade_eq]; ring
      _ ≤ 2 ^ (f.fractionBits + f.binades) := Nat.pow_le_pow_right (by omega) (by omega)

theorem rank_lt_count {rank : Nat} (hb : 0 < f.binades)
    (h : 2 * f.units rank < 2 ^ (f.fractionBits + f.binades)) : rank < f.count := by
  have hpos := f.perBinade_pos
  rcases f.rank_cases rank with hr | ⟨k, m, hm, hm', rfl⟩
  · exact hr.trans_le (Nat.le_mul_of_pos_left _ hb)
  · rw [f.units_binade k hm hm'] at h
    have hk : k + 1 < f.binades := by
      have hlow : 2 ^ (f.fractionBits + (k + 1)) ≤ 2 * (m * 2 ^ k) := by
        have := Nat.mul_le_mul_right (2 ^ k) hm
        have he : 2 ^ (f.fractionBits + (k + 1)) = 2 * (f.perBinade * 2 ^ k) := by
          rw [perBinade_eq]
          ring
        omega
      have := (Nat.pow_lt_pow_iff_right (a := 2) (by omega)).1 (hlow.trans_lt h)
      omega
    calc k * f.perBinade + m < (k + 2) * f.perBinade := by
          rw [Nat.add_mul]
          omega
      _ ≤ f.count := Nat.mul_le_mul_right _ hk

/-- Every number of the first format is one of the second. -/
structure Within (f g : FloatFormat) : Prop where
  fractionBits_le : f.fractionBits ≤ g.fractionBits
  scale_le : f.scale ≤ g.scale
  range_le : f.fractionBits + f.binades + (g.scale - f.scale) ≤ g.fractionBits + g.binades
  binades_pos : 0 < g.binades

theorem single_within_double : Within single double := by
  constructor <;> decide

theorem Within.exists_rank {f g : FloatFormat} (h : Within f g) (rank : Fin f.count) :
    ∃ r : Fin g.count, g.nearest (f.units rank * 2 ^ g.scale) (2 ^ f.scale) = r ∧
      g.units r = f.units rank * 2 ^ (g.scale - f.scale) := by
  obtain ⟨k, ⟨q, hq⟩, hlog⟩ := f.dvd_units rank
  have hscale : f.units rank * 2 ^ g.scale =
      f.units rank * 2 ^ (g.scale - f.scale) * 2 ^ f.scale := by
    rw [Nat.mul_assoc, ← pow_add, Nat.sub_add_cancel h.scale_le]
  have hdvd : 2 ^ ((f.units rank * 2 ^ (g.scale - f.scale)).log2 - g.fractionBits) ∣
      f.units rank * 2 ^ (g.scale - f.scale) := by
    rcases Nat.eq_zero_or_pos (f.units rank) with h0 | h0
    · rw [h0, Nat.zero_mul]
      exact Nat.dvd_zero _
    · have hl : (f.units rank * 2 ^ (g.scale - f.scale)).log2 =
          (f.units rank).log2 + (g.scale - f.scale) := log2_mul_two_pow h0.ne' _
      have hle := h.fractionBits_le
      rw [hl]
      conv_rhs => rw [hq]
      rw [Nat.mul_assoc, Nat.mul_comm q, ← Nat.mul_assoc, ← pow_add]
      exact (Nat.pow_dvd_pow 2 (by omega)).trans (Nat.dvd_mul_right _ _)
  have hunits := g.units_nearest_of_dvd (Nat.two_pow_pos f.scale) hdvd
  rw [← hscale] at hunits
  have hlt : g.nearest (f.units rank * 2 ^ g.scale) (2 ^ f.scale) < g.count := by
    apply g.rank_lt_count h.binades_pos
    rw [hunits]
    have hr := f.units_lt_limit rank.isLt
    calc 2 * (f.units rank * 2 ^ (g.scale - f.scale))
        = 2 * f.units rank * 2 ^ (g.scale - f.scale) := by ring
      _ < 2 ^ (f.fractionBits + f.binades) * 2 ^ (g.scale - f.scale) :=
          Nat.mul_lt_mul_of_pos_right hr (Nat.two_pow_pos _)
      _ = 2 ^ (f.fractionBits + f.binades + (g.scale - f.scale)) := by rw [← pow_add]
      _ ≤ 2 ^ (g.fractionBits + g.binades) := Nat.pow_le_pow_right (by omega) h.range_le
  exact ⟨⟨_, hlt⟩, rfl, hunits⟩

end FloatFormat

namespace Binary

variable {f g : FloatFormat}

theorem ofRatio_scale (s : Bool) (num den : Nat) {k : Nat} (hk : 0 < k) :
    ofRatio f s (num * k) (den * k) = ofRatio f s num den := by
  simp only [ofRatio, f.nearest_scale num den hk]

theorem ofRatio_of_nearest (s : Bool) {num den : Nat} {r : Fin f.count}
    (h : f.nearest num den = r) : ofRatio f s num den = .finite s r := by
  simp [ofRatio, h]

theorem ofRatio_units (s : Bool) (r : Fin f.count) {den : Nat} (hd : 0 < den) :
    ofRatio f s (f.units r * den) den = .finite s r :=
  ofRatio_of_nearest s (f.nearest_units r hd)

theorem convert_finite (s : Bool) (r : Fin f.count) : (finite s r : Binary f).convert g =
    ofRatio g s (f.units r * 2 ^ g.scale) (2 ^ f.scale) := rfl

/-- A conversion into a wider format is undone by the conversion back. -/
theorem convert_convert (h : f.Within g) (x : Binary f) : (x.convert g).convert f = x := by
  cases x with
  | nan => rfl
  | infinity s => rfl
  | finite s r =>
    obtain ⟨r', hr', hu⟩ := h.exists_rank r
    have hback : g.units r' * 2 ^ f.scale = f.units r * 2 ^ g.scale := by
      rw [hu, Nat.mul_assoc, ← pow_add, Nat.sub_add_cancel h.scale_le]
    rw [convert_finite, ofRatio_of_nearest s hr', convert_finite, hback]
    exact ofRatio_units s r (Nat.two_pow_pos _)

theorem isInt_finite_iff (s : Bool) (r : Fin f.count) (n : Int) :
    (finite s r : Binary f).isInt n = true ↔
      (if s then -(f.units r : Int) else f.units r) = n * (2 ^ f.scale : Nat) := by
  simp [isInt, units?, Nat.pow_eq]

def IsIntegral (x : Binary f) : Prop := ∃ n : Int, x.isInt n = true

theorem isIntegral_finite_iff (s : Bool) (r : Fin f.count) :
    (finite s r : Binary f).IsIntegral ↔ 2 ^ f.scale ∣ f.units r := by
  constructor
  · rintro ⟨n, hn⟩
    have hu := (isInt_finite_iff s r n).1 hn
    have hdvd : ((2 ^ f.scale : Nat) : Int) ∣ f.units r := by
      cases s with
      | false => exact ⟨n, by rw [Int.mul_comm]; exact hu⟩
      | true => exact (Int.dvd_neg).1 ⟨n, by rw [Int.mul_comm]; exact hu⟩
    exact Int.natCast_dvd_natCast.1 hdvd
  · rintro ⟨n, hn⟩
    refine ⟨if s then -(n : Int) else n, ?_⟩
    rw [isInt_finite_iff, hn]
    cases s <;> simp [Int.mul_comm]

theorem isIntegral_ofRatio (s : Bool) (n : Nat) (r : Fin f.count)
    (h : ofRatio f s (n * 2 ^ f.scale) 1 = .finite s r) : (finite s r : Binary f).IsIntegral := by
  rw [isIntegral_finite_iff]
  unfold ofRatio at h
  split at h
  · obtain rfl := (finite.inj h).2
    exact f.dvd_units_nearest n f.scale
  · cases h

end Binary

end Formulary
