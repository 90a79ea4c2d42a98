import Formulary.Proofs.Number.Numeral
import Formulary.Proofs.Number.Order

/-!
# Integers among the numbers of a format

The shortest decimal of an integer has no fraction, because the digits of the integer itself are
read back. In formulas an integer that is not too large is therefore written by the digits of an
integer, though not always of the same one: the digits behind the last that matters are zeros.
-/
namespace Formulary

namespace Decimal

theorem length_digits_le {d : Decimal} (he : 0 ≤ d.exponent) :
    (d.digits.length : Int) ≤ d.magnitude + 1 := by
  rcases Nat.eq_zero_or_pos d.coefficient with h | h
  · simp [digits_of_zero h, magnitude, h]
  · obtain ⟨k, hk⟩ := digits_spec h
    have hlen := congrArg List.length hk
    rw [List.length_append, List.length_replicate] at hlen
    rw [magnitude, if_neg h.ne']
    omega

theorem toDigits_digits {d : Decimal} (h : 0 < d.coefficient) :
    Nat.toDigits 10 (Nat.ofDigitChars 10 d.digits 0) = d.digits := by
  obtain ⟨k, hk⟩ := digits_spec h
  have hval : d.coefficient = Nat.ofDigitChars 10 d.digits 0 * 10 ^ k := by
    have := congrArg (Nat.ofDigitChars 10 · 0) hk
    simp only [Nat.ofDigitChars_ten_toDigits, Nat.ofDigitChars_append,
      Nat.ofDigitChars_replicate_zero] at this
    rw [this, Nat.mul_comm]
  have hpos : 0 < Nat.ofDigitChars 10 d.digits 0 := by
    rw [hval] at h
    exact Nat.pos_of_mul_pos_right h
  rw [hval, toDigits_mul_pow hpos] at hk
  exact List.append_cancel_right hk

theorem ofDigitChars_digits_pos {d : Decimal} (h : 0 < d.coefficient) :
    0 < Nat.ofDigitChars 10 d.digits 0 := by
  by_contra h0
  have hzero := toDigits_digits h
  have hhead := head_digits_ne_zero h
  rw [Nat.eq_zero_of_not_pos h0, Nat.toDigits_zero] at hzero
  rw [← hzero] at hhead
  exact hhead rfl

/-- The integer that the significant digits give with zeros up to the point. -/
def integer (d : Decimal) : Nat :=
  Nat.ofDigitChars 10 d.digits 0 * 10 ^ (d.magnitude.toNat + 1 - d.digits.length)

theorem toDigits_integer {d : Decimal} (h : 0 < d.coefficient) : Nat.toDigits 10 d.integer =
    d.digits ++ List.replicate (d.magnitude.toNat + 1 - d.digits.length) '0' := by
  rw [integer, toDigits_mul_pow (ofDigitChars_digits_pos h), toDigits_digits h]

end Decimal

namespace Binary

variable {f : FloatFormat}

theorem exponent_withDigits {x : Binary f} {d d' : Decimal} {n : Nat}
    (h : withDigits? x d n = some d') :
    d'.exponent = d.exponent + ((Nat.toDigits 10 d.coefficient).length - n : Nat) := by
  simp only [withDigits?] at h
  split at h
  · split at h <;> exact Option.some.inj h ▸ rfl
  · exact Option.some.inj h ▸ rfl
  · exact Option.some.inj h ▸ rfl
  · cases h

/-- The digits of an integer are read back. -/
theorem withDigits?_integer {s : Bool} {r : Fin f.count} {u : Nat} (hu : 0 < u)
    (h : f.units r = u * 2 ^ f.scale) :
    withDigits? (.finite s r) (exact f s r) (Nat.toDigits 10 u).length ≠ none := by
  have hc : (exact f s r).coefficient = u * 10 ^ f.scale := by
    rw [exact_eq, h, Nat.mul_assoc, ← Nat.mul_pow]
  have hread : ofDecimal f ⟨s, u, -f.scale + (f.scale : Nat)⟩ = .finite s r := by
    rw [← ofDecimal_scale, ← ofDecimal_exact s r, exact_eq, h, Nat.mul_assoc, ← Nat.mul_pow]
  have hlen : (Nat.toDigits 10 (u * 10 ^ f.scale)).length - (Nat.toDigits 10 u).length =
      f.scale := by
    rw [toDigits_mul_pow hu, List.length_append, List.length_replicate, Nat.add_sub_cancel_left]
  have hq : u * 10 ^ f.scale / 10 ^ f.scale = u := Nat.mul_div_cancel _ (Nat.pow_pos (by omega))
  unfold withDigits?
  dsimp only
  rw [hc, hlen, Nat.pow_eq, hq]
  have hbelow : decide (ofDecimal f ⟨(exact f s r).negative, u,
      (exact f s r).exponent + (f.scale : Nat)⟩ = .finite s r) = true := decide_eq_true hread
  rw [hbelow]
  cases decide (ofDecimal f ⟨(exact f s r).negative, u + 1,
      (exact f s r).exponent + (f.scale : Nat)⟩ = .finite s r) with
  | true =>
    dsimp only
    split <;> exact Option.some_ne_none _
  | false => exact Option.some_ne_none _

/-- The first number of digits that is enough is not greater than any other that is. -/
theorem findSome?_range_le {α : Type} {g : Nat → Option α} {bound m : Nat} {a : α}
    (h : (List.range bound).findSome? g = some a) (hm : g m ≠ none) :
    ∃ n ≤ m, g n = some a := by
  obtain ⟨l, n, l', hl, hn, hnone⟩ := List.findSome?_eq_some_iff.1 h
  refine ⟨n, ?_, hn⟩
  by_contra hlt
  have hsorted : (l ++ n :: l').Pairwise (· < ·) := hl ▸ List.pairwise_lt_range
  have hmem : m ∈ l ++ n :: l' := by
    have hbound : n < bound := List.mem_range.1 (hl ▸ List.mem_append_right l List.mem_cons_self)
    rw [← hl, List.mem_range]
    omega
  rcases List.mem_append.1 hmem with hml | hml
  · exact hm (hnone m hml)
  · rcases List.mem_cons.1 hml with rfl | hml'
    · exact hlt le_rfl
    · have := List.rel_of_pairwise_cons (List.pairwise_append.1 hsorted).2.1 hml'
      omega

/-- The shortest decimal of an integer has no digits behind the point. -/
theorem length_digits_shortest {s : Bool} {r : Fin f.count} (h0 : 0 < f.units r)
    (h : 2 ^ f.scale ∣ f.units r) :
    ((shortest f s r).digits.length : Int) ≤ (shortest f s r).magnitude + 1 := by
  obtain ⟨u, hu⟩ := h
  rw [Nat.mul_comm] at hu
  have hpos : 0 < u := by
    rw [hu] at h0
    exact Nat.pos_of_mul_pos_right h0
  have hexact : exact f s r = ⟨s, u * 10 ^ f.scale, -f.scale⟩ := by
    rw [exact_eq, hu, Nat.mul_assoc, ← Nat.mul_pow]
  rw [shortest]
  cases hfound : (List.range 17).findSome? fun n =>
      withDigits? (.finite s r) (exact f s r) (n + 1) with
  | none =>
    rw [Option.getD_none, hexact, Decimal.digits_scale s u f.scale _ (-f.scale + f.scale),
      Decimal.magnitude_scale s hpos]
    apply Decimal.length_digits_le
    rw [Int.add_left_neg]
  | some d =>
    have hlen : (Nat.toDigits 10 u).length - 1 + 1 = (Nat.toDigits 10 u).length :=
      Nat.sub_add_cancel Nat.length_toDigits_pos
    have henough : withDigits? (.finite s r) (exact f s r)
        ((Nat.toDigits 10 u).length - 1 + 1) ≠ none := by
      rw [hlen]
      exact withDigits?_integer hpos hu
    obtain ⟨n, hn, hd⟩ := findSome?_range_le hfound henough
    rw [Option.getD_some]
    apply Decimal.length_digits_le
    rw [exponent_withDigits hd, hexact]
    dsimp only
    rw [toDigits_mul_pow hpos, List.length_append, List.length_replicate]
    omega

variable {s : Bool} {r : Fin f.count} {d : Decimal}

theorem ofDecimal_integer (h : (d.digits.length : Int) ≤ d.magnitude + 1) :
    ofDecimal f ⟨d.negative, d.integer, 0⟩ = ofDecimal f d := by
  have he : 0 + ((d.magnitude.toNat + 1 - d.digits.length : Nat) : Int) =
      d.magnitude + 1 - d.digits.length := by
    have := List.length_pos_iff.2 d.digits_ne_nil
    omega
  rw [Decimal.integer, ofDecimal_scale, he]
  exact d.same_significant.ofDecimal_eq f

theorem coefficient_pos_of_ofDecimal (h0 : 0 < f.units r) (h : ofDecimal f d = .finite s r) :
    0 < d.coefficient := by
  obtain ⟨s', c, e⟩ := d
  rcases Nat.eq_zero_or_pos c with rfl | hc
  · rw [ofDecimal_zero] at h
    rw [← nearest_of_ofRatio h, f.nearest_zero, f.units_zero] at h0
    exact absurd h0 (Nat.lt_irrefl 0)
  · exact hc

/-- An integer that is read as a number below a power of two lies below it too. -/
theorem lt_two_pow_of_ofDecimal {n k : Nat} (h : ofDecimal f ⟨s, n, 0⟩ = .finite s r)
    (hlt : f.units r < 2 ^ k * 2 ^ f.scale) : n < 2 ^ k := by
  by_contra hle
  have hn : 2 ^ k ≤ n * 10 ^ 0 := by
    rw [pow_zero, Nat.mul_one]
    omega
  have hrank := nearest_le_of_ofDecimal (e := 0) (Nat.two_pow_pos k) hn h
  have hdvd : 2 ^ ((2 ^ k * 2 ^ f.scale).log2 - f.fractionBits) ∣ 2 ^ k * 2 ^ f.scale := by
    rw [← pow_add, Nat.log2_two_pow]
    exact Nat.pow_dvd_pow 2 (Nat.sub_le _ _)
  have hunits := f.units_nearest_of_dvd Nat.one_pos hdvd
  rw [Nat.mul_one] at hunits
  have := f.units_le_units hrank
  omega

/-- The rank of the double `10 ^ 21`. -/
def rankLarge : Fin FloatFormat.double.count := ⟨4921056587992461136, by decide +kernel⟩

theorem nearest_large :
    FloatFormat.double.nearest (10 ^ 21 * 2 ^ FloatFormat.double.scale) 1 = rankLarge := by
  decide +kernel

theorem magnitude_shortest_rankLarge (s : Bool) :
    (shortest .double s rankLarge).magnitude = 21 := by
  revert s
  decide +kernel

/-- The doubles from `10 ^ 21` on are not written positionally. -/
theorem le_magnitude_shortest {s : Bool} {r : Fin FloatFormat.double.count}
    (h : 10 ^ 21 * 2 ^ FloatFormat.double.scale ≤ FloatFormat.double.units r) :
    21 ≤ (shortest .double s r).magnitude := by
  by_contra hlt
  have hle : r ≤ FloatFormat.double.nearest (10 ^ 21 * 2 ^ FloatFormat.double.scale) 1 :=
    le_nearest_of_ofDecimal (by omega) (ofDecimal_shortest s r)
  have hge : FloatFormat.double.nearest (10 ^ 21 * 2 ^ FloatFormat.double.scale) 1 ≤ r := by
    have hself := FloatFormat.double.nearest_units r Nat.one_pos
    rw [Nat.mul_one] at hself
    calc FloatFormat.double.nearest (10 ^ 21 * 2 ^ FloatFormat.double.scale) 1
        ≤ FloatFormat.double.nearest (FloatFormat.double.units r) 1 :=
          FloatFormat.double.nearest_mono h 1
      _ = r := hself
  have hr : r = rankLarge := Fin.ext (Nat.le_antisymm (nearest_large ▸ hle) (nearest_large ▸ hge))
  rw [hr, magnitude_shortest_rankLarge] at hlt
  exact hlt le_rfl

end Binary

namespace Layout

theorem formula_decimal_integer {d : Decimal} (hc : 0 < d.coefficient)
    (hlen : (d.digits.length : Int) ≤ d.magnitude + 1) (hm : d.magnitude < 21) :
    formula.decimal d.magnitude d =
      (if d.negative then ['-'] else []) ++ Nat.toDigits 10 d.integer := by
  have hdigits := List.length_pos_iff.2 d.digits_ne_nil
  have hscope : formula.positionalFrom ≤ d.magnitude ∧ d.magnitude < formula.positionalBelow := by
    change -4 ≤ d.magnitude ∧ d.magnitude < 21
    omega
  have hnonneg : ¬ d.magnitude < 0 := by omega
  have hshort : ¬ d.magnitude.toNat + 1 < d.digits.length := by omega
  have hpoint : (if formula.keepPointZero = true then ['.', '0'] else []) = [] := rfl
  rw [decimal, if_pos hscope, positional, if_neg hnonneg, if_neg hshort, hpoint,
    Decimal.toDigits_integer hc, List.append_nil]

/-- An integer that is not too large for positional notation is written as the integer of its
digits, which is read as the number. -/
theorem exists_digits_formula {s : Bool} {r : Fin FloatFormat.double.count}
    (h0 : 0 < FloatFormat.double.units r) (h : (Binary.finite s r : Double).IsIntegral)
    (hm : (Binary.shortest .double s r).magnitude < 21) :
    ∃ n : Nat, formula.byDigits (.finite s r : Double) =
        (if s then ['-'] else []) ++ Nat.toDigits 10 n ∧ 0 < n ∧
      Binary.ofDecimal .double ⟨s, n, 0⟩ = .finite s r := by
  have hlen := Binary.length_digits_shortest (s := s) h0 ((Binary.isIntegral_finite_iff s r).1 h)
  have hread := Binary.ofDecimal_shortest s r
  have hsign := Binary.negative_of_ofDecimal hread
  have hc := Binary.coefficient_pos_of_ofDecimal h0 hread
  refine ⟨(Binary.shortest .double s r).integer, ?_, ?_, ?_⟩
  · have htext := formula_decimal_integer hc hlen hm
    rwa [hsign, ← formula_byDigits_finite] at htext
  · exact Nat.mul_pos (Decimal.ofDigitChars_digits_pos hc) (Nat.pow_pos (by omega))
  · have hint := Binary.ofDecimal_integer (f := .double) hlen
    rwa [hsign, hread] at hint

end Layout

end Formulary
