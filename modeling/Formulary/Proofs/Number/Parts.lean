import Formulary.Number.Layout
import Formulary.Proofs.Number.Value
import Mathlib.Data.List.Basic
import Mathlib.Data.List.TakeWhile

/-!
# The parts of a written number

Every text that a layout gives to a finite number has the same shape: a sign, digits, a point
with more digits, and a power of ten. The parts are kept here apart from the text, so that each
reader is dealt with once. Read as a decimal, they give the number that was written, and no zero
among them can be left out unless the layout keeps `.0`.
-/
namespace Formulary

/-! ## Significant digits -/

theorem head_toDigits_ne_zero {n : Nat} (hn : 0 < n) : (Nat.toDigits 10 n).head? ≠ some '0' := by
  induction n using Nat.strong_induction_on with
  | _ n ih =>
    by_cases h : n < 10
    · rw [Nat.toDigits_of_lt_base h, List.head?_cons, ne_eq, Option.some.injEq]
      intro he
      have := Nat.toNat_digitChar_of_lt_ten h
      rw [he] at this
      change 48 = 48 + n at this
      omega
    · rw [Nat.toDigits_of_base_le (by omega) (by omega),
        List.head?_append_of_ne_nil _ Nat.toDigits_ne_nil]
      exact ih (n / 10) (by omega) (by omega)

namespace Decimal

/-- The significant digits are the digits of the coefficient up to some zeros. -/
theorem digits_spec {d : Decimal} (h : 0 < d.coefficient) :
    ∃ k, Nat.toDigits 10 d.coefficient = d.digits ++ List.replicate k '0' := by
  have hsplit := List.takeWhile_append_dropWhile (p := (· == '0'))
    (l := (Nat.toDigits 10 d.coefficient).reverse)
  have hzeros : (Nat.toDigits 10 d.coefficient).reverse.takeWhile (· == '0') =
      List.replicate ((Nat.toDigits 10 d.coefficient).reverse.takeWhile (· == '0')).length '0' := by
    apply List.eq_replicate_of_mem
    intro c hc
    have h0 := List.mem_takeWhile_imp hc
    exact beq_iff_eq.1 h0
  rw [hzeros] at hsplit
  have hdigits := congrArg List.reverse hsplit
  rw [List.reverse_append, List.reverse_replicate, List.reverse_reverse] at hdigits
  refine ⟨((Nat.toDigits 10 d.coefficient).reverse.takeWhile (· == '0')).length,
    hdigits.symm.trans ?_⟩
  congr 1
  unfold digits
  split
  next hnil =>
    rw [hnil, List.nil_append] at hdigits
    have hhead := head_toDigits_ne_zero h
    rw [← hdigits] at hhead
    cases hlen : ((Nat.toDigits 10 d.coefficient).reverse.takeWhile (· == '0')).length with
    | zero =>
      rw [hlen, List.replicate_zero] at hdigits
      exact absurd hdigits.symm Nat.toDigits_ne_nil
    | succ k => simp [hlen, List.replicate_succ] at hhead
  next => rfl

theorem digits_of_zero {d : Decimal} (h : d.coefficient = 0) : d.digits = ['0'] := by
  simp [digits, h]

theorem digits_ne_nil (d : Decimal) : d.digits ≠ [] := by
  unfold digits
  split
  · exact List.cons_ne_nil _ _
  next hds => exact hds

theorem isDigit_digits {d : Decimal} : ∀ c ∈ d.digits, c.isDigit = true := by
  intro c hc
  rcases Nat.eq_zero_or_pos d.coefficient with h | h
  · rw [digits_of_zero h, List.mem_singleton] at hc
    subst hc
    rfl
  · obtain ⟨k, hk⟩ := digits_spec h
    apply Nat.isDigit_of_mem_toDigits (b := 10) (n := d.coefficient) (by omega) (by omega)
    rw [hk]
    exact List.mem_append_left _ hc

theorem head_digits_ne_zero {d : Decimal} (h : 0 < d.coefficient) : d.digits.head? ≠ some '0' := by
  obtain ⟨k, hk⟩ := digits_spec h
  have hhead := head_toDigits_ne_zero h
  rwa [hk, List.head?_append_of_ne_nil _ d.digits_ne_nil] at hhead

theorem getLast_digits_ne_zero {d : Decimal} (h : 0 < d.coefficient) :
    d.digits.getLast? ≠ some '0' := by
  have hhead := head_digits_ne_zero h
  unfold digits at hhead ⊢
  split
  next hnil => simp [hnil] at hhead
  next =>
    rw [List.getLast?_reverse]
    intro hzero
    have hnot := List.head?_dropWhile_not (· == '0') (Nat.toDigits 10 d.coefficient).reverse
    simp [hzero] at hnot

/-- The decimal that the significant digits give when the leading one stands at the magnitude. -/
def significant (d : Decimal) : Decimal :=
  ⟨d.negative, Nat.ofDigitChars 10 d.digits 0, d.magnitude + 1 - d.digits.length⟩

theorem same_significant (d : Decimal) : d.significant.Same d := by
  obtain ⟨s, c, e⟩ := d
  rcases Nat.eq_zero_or_pos c with rfl | hc
  · rw [significant, digits_of_zero rfl]
    exact same_zero s _ e
  · obtain ⟨k, hk⟩ := digits_spec (d := ⟨s, c, e⟩) hc
    have hlen := congrArg List.length hk
    have hval := congrArg (Nat.ofDigitChars 10 · 0) hk
    simp only [List.length_append, List.length_replicate] at hlen
    simp only [Nat.ofDigitChars_ten_toDigits, Nat.ofDigitChars_append,
      Nat.ofDigitChars_replicate_zero] at hval
    have hmag : magnitude ⟨s, c, e⟩ + 1 - (digits ⟨s, c, e⟩).length = e + k := by
      rw [magnitude, if_neg hc.ne']
      dsimp only at hlen ⊢
      omega
    rw [significant, hmag]
    rw [Nat.mul_comm] at hval
    conv_rhs => rw [hval]
    exact (same_scale s _ k e).symm

end Decimal

/-! ## Parts -/

namespace Numeral

/-- The parts of a number as it is written. No zero stands in front but a single one. -/
structure Parts where
  negative : Bool
  whole : List Char
  fraction : List Char
  power? : Option Int
  isDigit_whole : ∀ c ∈ whole, c.isDigit = true
  isDigit_fraction : ∀ c ∈ fraction, c.isDigit = true
  whole_ne_nil : whole ≠ []
  leading : whole = ['0'] ∨ whole.head? ≠ some '0'

namespace Parts

/-- The point and the digits after it, if there are any. -/
def point (p : Parts) : List Char := if p.fraction = [] then [] else '.' :: p.fraction

def power (p : Parts) : List Char := p.power?.elim [] Layout.exponent

def unsigned (p : Parts) : List Char := p.whole ++ (p.point ++ p.power)

def chars (p : Parts) : List Char := (if p.negative then ['-'] else []) ++ p.unsigned

def decimal (p : Parts) : Decimal :=
  ⟨p.negative, Nat.ofDigitChars 10 (p.whole ++ p.fraction) 0, p.power?.getD 0 - p.fraction.length⟩

/-- The number is written without point and power of ten. -/
def IsWhole (p : Parts) : Prop := p.fraction = [] ∧ p.power? = none

instance (p : Parts) : Decidable p.IsWhole := inferInstanceAs (Decidable (_ ∧ _))

/-- No zero can be left out: the fraction does not end in one, a single digit other than zero
stands in front of a power of ten, and this is written with two digits, or with more of which the
first is no zero. -/
structure Tight (p : Parts) : Prop where
  fraction : p.fraction.getLast? ≠ some '0'
  whole : p.power? ≠ none → ∃ c, p.whole = [c] ∧ c ≠ '0'
  power : ∀ m ∈ p.power?, ∃ sign ds, p.power = 'e' :: sign :: ds ∧
    (ds.length = 2 ∨ 2 < ds.length ∧ ds.head? ≠ some '0')

theorem tight_exponent (m : Int) : ∃ sign ds, Layout.exponent m = 'e' :: sign :: ds ∧
    (ds.length = 2 ∨ 2 < ds.length ∧ ds.head? ≠ some '0') := by
  refine ⟨_, _, rfl, ?_⟩
  rcases Nat.lt_or_ge 2 (Nat.toDigits 10 m.natAbs).length with h | h
  · right
    have hzeros : 2 - (Nat.toDigits 10 m.natAbs).length = 0 := by omega
    have hpos : 0 < m.natAbs := by
      by_contra h0
      rw [Nat.eq_zero_of_not_pos h0, Nat.toDigits_zero] at h
      simp at h
    rw [List.leftpad, hzeros, List.replicate_zero, List.nil_append]
    exact ⟨h, head_toDigits_ne_zero hpos⟩
  · left
    rw [List.length_leftpad]
    omega

/-- The integer of a number that is written whole. -/
def integer (p : Parts) : Int :=
  if p.negative then -(Nat.ofDigitChars 10 p.whole 0 : Int) else Nat.ofDigitChars 10 p.whole 0

def ofInt (n : Int) : Parts where
  negative := n < 0
  whole := Nat.toDigits 10 n.natAbs
  fraction := []
  power? := none
  isDigit_whole _ hc := Nat.isDigit_of_mem_toDigits (by omega) (by omega) hc
  isDigit_fraction := by simp
  whole_ne_nil := Nat.toDigits_ne_nil
  leading := by
    rcases Nat.eq_zero_or_pos n.natAbs with h | h
    · exact Or.inl (by rw [h, Nat.toDigits_zero])
    · exact Or.inr (head_toDigits_ne_zero h)

theorem chars_ofInt (n : Int) : (ofInt n).chars = intText n := by
  by_cases h : n < 0 <;> simp [chars, unsigned, point, power, ofInt, intText, h]

theorem isWhole_ofInt (n : Int) : (ofInt n).IsWhole := ⟨rfl, rfl⟩

theorem integer_ofInt (n : Int) : (ofInt n).integer = n := by
  simp only [integer, ofInt, Nat.ofDigitChars_ten_toDigits, decide_eq_true_eq]
  split <;> omega

/-- Parts that hold the significant digits of a decimal, with zeros after them, at their place
denote the same number. -/
theorem same_decimal {p : Parts} {d : Decimal} (zeros : Nat) (hsign : p.negative = d.negative)
    (hval : Nat.ofDigitChars 10 (p.whole ++ p.fraction) 0 =
      Nat.ofDigitChars 10 d.digits 0 * 10 ^ zeros)
    (hexp : p.power?.getD 0 - p.fraction.length + zeros = d.magnitude + 1 - d.digits.length) :
    p.decimal.Same d := by
  have hscale := Decimal.same_scale p.negative (Nat.ofDigitChars 10 d.digits 0) zeros
    (p.power?.getD 0 - p.fraction.length)
  rw [← hval, hexp, hsign] at hscale
  rw [decimal, hsign]
  exact hscale.trans d.same_significant

/-- Parts of a number below one: a zero, the point, zeros and the digits. -/
def below (d : Decimal) (zeros : Nat) : Parts where
  negative := d.negative
  whole := ['0']
  fraction := List.replicate zeros '0' ++ d.digits
  power? := none
  isDigit_whole := by simp
  isDigit_fraction c hc := by
    rcases List.mem_append.1 hc with h | h
    · rw [List.eq_of_mem_replicate h]
      rfl
    · exact Decimal.isDigit_digits c h
  whole_ne_nil := by simp
  leading := Or.inl rfl

theorem same_below {d : Decimal} {zeros : Nat} (hm : d.magnitude + 1 + zeros = 0) :
    (below d zeros).decimal.Same d := by
  refine same_decimal 0 rfl ?_ ?_
  · simp [below, Nat.ofDigitChars_cons, Nat.ofDigitChars_append]
  · simp only [below, List.length_append, List.length_replicate, Option.getD_none]
    omega

theorem tight_below {d : Decimal} (h : 0 < d.coefficient) (zeros : Nat) :
    (below d zeros).Tight where
  fraction := by
    rw [below, List.getLast?_append_of_ne_nil _ d.digits_ne_nil]
    exact Decimal.getLast_digits_ne_zero h
  whole := by simp [below]
  power := by simp [below]

/-- Parts with the point after the first `n` digits. -/
def split (d : Decimal) (n : Nat) (hn : 0 < n) (power? : Option Int) : Parts where
  negative := d.negative
  whole := d.digits.take n
  fraction := d.digits.drop n
  power? := power?
  isDigit_whole c hc := Decimal.isDigit_digits c (List.mem_of_mem_take hc)
  isDigit_fraction c hc := Decimal.isDigit_digits c (List.mem_of_mem_drop hc)
  whole_ne_nil := by simp [List.take_eq_nil_iff, d.digits_ne_nil, hn.ne']
  leading := by
    rcases Nat.eq_zero_or_pos d.coefficient with h | h
    · exact Or.inl (by rw [Decimal.digits_of_zero h, List.take_of_length_le hn])
    · right
      rw [List.head?_take, if_neg hn.ne']
      exact Decimal.head_digits_ne_zero h

theorem same_split {d : Decimal} {n : Nat} (hn : 0 < n) (hlen : n ≤ d.digits.length)
    {power? : Option Int} (hm : power?.getD 0 + n = d.magnitude + 1) :
    (split d n hn power?).decimal.Same d := by
  refine same_decimal 0 rfl ?_ ?_
  · simp only [split, List.take_append_drop, pow_zero, Nat.mul_one]
  · simp only [split, List.length_drop]
    omega

theorem tight_split {d : Decimal} (h : 0 < d.coefficient) {n : Nat} (hn : 0 < n)
    {power? : Option Int} (hpower : power? ≠ none → n = 1) : (split d n hn power?).Tight where
  fraction := by
    rw [split, List.getLast?_drop]
    split
    · simp
    · exact Decimal.getLast_digits_ne_zero h
  whole := by
    intro hp
    have hhead := Decimal.head_digits_ne_zero h
    obtain ⟨c, ds, hds⟩ := List.exists_cons_of_ne_nil d.digits_ne_nil
    refine ⟨c, by simp [split, hpower hp, hds], ?_⟩
    rintro rfl
    simp [hds] at hhead
  power := by
    intro m hm
    obtain ⟨sign, ds, heq, hds⟩ := tight_exponent m
    refine ⟨sign, ds, ?_, hds⟩
    rw [Parts.power, Option.mem_def.1 hm]
    exact heq

/-- Parts of a number without fraction: the digits and zeros, and perhaps `.0`. -/
def padded (d : Decimal) (zeros : Nat) (hz : d.coefficient = 0 → zeros = 0) (point : Bool) :
    Parts where
  negative := d.negative
  whole := d.digits ++ List.replicate zeros '0'
  fraction := if point then ['0'] else []
  power? := none
  isDigit_whole c hc := by
    rcases List.mem_append.1 hc with h | h
    · exact Decimal.isDigit_digits c h
    · rw [List.eq_of_mem_replicate h]
      rfl
  isDigit_fraction := by cases point <;> simp
  whole_ne_nil := by simp [d.digits_ne_nil]
  leading := by
    rcases Nat.eq_zero_or_pos d.coefficient with h | h
    · exact Or.inl (by rw [Decimal.digits_of_zero h, hz h, List.replicate_zero, List.append_nil])
    · right
      rw [List.head?_append_of_ne_nil _ d.digits_ne_nil]
      exact Decimal.head_digits_ne_zero h

theorem same_padded {d : Decimal} {zeros : Nat} (hz : d.coefficient = 0 → zeros = 0) (point : Bool)
    (hm : d.magnitude + 1 = d.digits.length + zeros) :
    (padded d zeros hz point).decimal.Same d := by
  -- the zero behind the point is one more zero behind the digits
  refine same_decimal (zeros + if point then 1 else 0) rfl ?_ ?_
  · cases point with
    | false => simp [padded, Nat.ofDigitChars_append, Nat.mul_comm]
    | true =>
      simp [padded, Nat.ofDigitChars_append, Nat.ofDigitChars_cons, pow_succ, Nat.mul_comm,
        Nat.mul_assoc]
  · cases point <;> simp [padded] <;> omega

theorem tight_padded {d : Decimal} {zeros : Nat} (hz : d.coefficient = 0 → zeros = 0) :
    (padded d zeros hz false).Tight where
  fraction := by simp [padded]
  whole := by simp [padded]
  power := by simp [padded]

end Parts

end Numeral

namespace Layout

open Numeral (Parts)

/-- A number in positional notation is the decimal that was written. -/
theorem exists_parts_positional (l : Layout) (d : Decimal) :
    ∃ p : Parts, p.negative = d.negative ∧ p.unsigned = l.positional d.digits d.magnitude ∧
      p.decimal.Same d ∧ p.power? = none ∧ (p.IsWhole → l.keepPointZero = false) ∧
      (l.keepPointZero = false → p.Tight) := by
  have hne := d.digits_ne_nil
  by_cases hm : d.magnitude < 0
  · have hc : 0 < d.coefficient := by
      by_contra h0
      rw [Decimal.magnitude, if_pos (Nat.eq_zero_of_not_pos h0)] at hm
      exact absurd hm (Int.lt_irrefl 0)
    refine ⟨.below d (-d.magnitude - 1).toNat, rfl, ?_, ?_, rfl, ?_, fun _ => Parts.tight_below hc _⟩
    · simp [Parts.unsigned, Parts.point, Parts.power, Parts.below, positional, hm, hne]
    · exact Parts.same_below (by omega)
    · intro h
      simp [Parts.IsWhole, Parts.below, hne] at h
  · by_cases hd : d.magnitude.toNat + 1 < d.digits.length
    · have hdrop : d.digits.drop (d.magnitude.toNat + 1) ≠ [] := by
        rw [ne_eq, List.drop_eq_nil_iff]
        omega
      have hc : 0 < d.coefficient := by
        by_contra h0
        simp [Decimal.digits_of_zero (Nat.eq_zero_of_not_pos h0)] at hd
      refine ⟨.split d (d.magnitude.toNat + 1) (Nat.succ_pos _) none, rfl, ?_, ?_, rfl, ?_,
        fun _ => Parts.tight_split hc _ (by simp)⟩
      · rw [positional, if_neg hm, if_pos hd]
        simp [Parts.unsigned, Parts.point, Parts.power, Parts.split, hdrop]
      · apply Parts.same_split (Nat.succ_pos _) hd.le
        rw [Option.getD_none]
        omega
      · intro h
        exact absurd h.1 hdrop
    · have hz : d.coefficient = 0 → d.magnitude.toNat + 1 - d.digits.length = 0 := by
        intro h
        rw [Decimal.digits_of_zero h, Decimal.magnitude, if_pos h]
        rfl
      refine ⟨.padded d _ hz l.keepPointZero, rfl, ?_, ?_, rfl, ?_, ?_⟩
      · rw [positional, if_neg hm, if_neg hd]
        cases hk : l.keepPointZero <;>
          simp [Parts.unsigned, Parts.point, Parts.power, Parts.padded]
      · exact Parts.same_padded hz l.keepPointZero (by omega)
      · intro h
        by_contra hk
        simp [Parts.IsWhole, Parts.padded, hk] at h
      · intro hk
        rw [hk]
        exact Parts.tight_padded hz

theorem exists_parts_scientific (d : Decimal) :
    ∃ p : Parts, p.negative = d.negative ∧ p.unsigned = scientific d.digits d.magnitude ∧
      p.decimal.Same d ∧ p.power? = some d.magnitude ∧ (0 < d.coefficient → p.Tight) := by
  have hlen : 0 < d.digits.length := List.length_pos_iff.2 d.digits_ne_nil
  refine ⟨.split d 1 Nat.one_pos (some d.magnitude), rfl, ?_, ?_, rfl, ?_⟩
  · simp [Parts.unsigned, Parts.point, Parts.power, Parts.split, scientific]
  · apply Parts.same_split Nat.one_pos hlen
    rw [Option.getD_some]
    rfl
  · intro hc
    exact Parts.tight_split hc _ fun _ => rfl

/-- The text of a decimal has parts that denote the same number. They lack both point and power of
ten only where the layout is positional and leaves `.0` out. -/
theorem exists_parts (l : Layout) (scope : Int) (d : Decimal) :
    ∃ p : Parts, p.chars = l.decimal scope d ∧ p.decimal.Same d ∧
      (p.IsWhole → l.keepPointZero = false ∧ scope < l.positionalBelow) := by
  by_cases h : l.positionalFrom ≤ scope ∧ scope < l.positionalBelow
  · obtain ⟨p, hsign, hchars, hsame, -, hwhole, -⟩ := exists_parts_positional l d
    refine ⟨p, ?_, hsame, fun hp => ⟨hwhole hp, h.2⟩⟩
    rw [Parts.chars, hsign, hchars, decimal, if_pos h]
  · obtain ⟨p, hsign, hchars, hsame, hpower, -⟩ := exists_parts_scientific d
    refine ⟨p, ?_, hsame, fun hp => ?_⟩
    · rw [Parts.chars, hsign, hchars, decimal, if_neg h]
    · cases hpower.symm.trans hp.2

end Layout

end Formulary
