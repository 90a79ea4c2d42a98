import Formulary.Number.IntKind
import Formulary.Number.Numeral
import Formulary.Proofs.Number.Parts
import Formulary.Proofs.Text.Run

/-!
# Numbers that formulas read back

The reader of formulas finds the parts of a written number again: a whole number is read as its
integer, and any other as the double nearest to its decimal.
-/
namespace Formulary

theorem isDigit_leftpad_toDigits (width n : Nat) :
    ∀ c ∈ (Nat.toDigits 10 n).leftpad width '0', c.isDigit = true := by
  intro c hc
  rcases List.mem_append.1 hc with h | h
  · rw [List.eq_of_mem_replicate h]
    rfl
  · exact Nat.isDigit_of_mem_toDigits (by omega) (by omega) h

theorem ofDigitChars_leftpad_toDigits (width n : Nat) :
    Nat.ofDigitChars 10 ((Nat.toDigits 10 n).leftpad width '0') 0 = n := by
  rw [List.leftpad, Nat.ofDigitChars_append, Nat.ofDigitChars_replicate_zero, Nat.mul_zero,
    Nat.ofDigitChars_ten_toDigits]

theorem DigitLimit.admitsInt_standard_iff {n : Int} :
    standard.admitsInt n = true ↔ n.natAbs < 10 ^ 4300 := by
  rw [← Nat.length_toDigits_le_iff (by decide) (by decide)]
  exact decide_eq_true_iff

/-- Some integers have more digits than the limit admits. -/
theorem DigitLimit.exists_not_admitsInt : ∃ n : Int, standard.admitsInt n = false := by
  obtain ⟨n, hn⟩ : ∃ n : Nat, n = 10 ^ 4300 := ⟨_, rfl⟩
  refine ⟨n, ?_⟩
  rw [Bool.eq_false_iff, ne_eq, admitsInt_standard_iff, Int.natAbs_natCast, hn]
  exact Nat.lt_irrefl _

theorem DigitLimit.admitsInt_of_contains {kind : IntKind} {n : Int} (h : kind.contains n = true) :
    standard.admitsInt n = true := by
  have hn : n.natAbs < 10 ^ 20 := by
    rw [IntKind.contains, Bool.and_eq_true, decide_eq_true_eq, decide_eq_true_eq] at h
    cases kind <;> simp only [IntKind.min, IntKind.max] at h <;> omega
  have hlength : (Nat.toDigits 10 n.natAbs).length ≤ 20 :=
    (Nat.length_toDigits_le_iff (by omega) (by omega)).2 hn
  exact decide_eq_true (hlength.trans (by omega))

namespace Numeral

open Text

/-- The characters that occur in written numbers. -/
def isNumberChar (c : Char) : Bool :=
  c.isDigit || c == '-' || c == '+' || c == '.' || c == 'e'

theorem isNumberChar_of_isDigit {c : Char} (h : c.isDigit = true) : isNumberChar c = true := by
  simp [isNumberChar, h]

theorem exponent?_mark (negative : Bool) (ds : List Char) (hne : ds ≠ [])
    (hds : ∀ c ∈ ds, isDigit c = true) :
    exponent? ('e' :: (if negative then '-' else '+') :: ds) =
      some (if negative then -(digitsValue ds : Int) else digitsValue ds) := by
  cases negative <;> simpa [exponent?, sign, hne] using hds

theorem trimBy_of_not {q : Char → Bool} {cs : List Char} (h : ∀ c ∈ cs, q c = false) :
    trimBy q cs = cs := by
  have hstop : ∀ cs : List Char, (∀ c ∈ cs, q c = false) → Stops q cs := fun cs h c hc =>
    h c (List.mem_of_mem_head? hc)
  rw [trimBy, dropWhile_of_stops (hstop cs h), dropWhile_of_stops, List.reverse_reverse]
  exact hstop _ fun c hc => h c (List.mem_reverse.1 hc)

theorem dropUnderscores?_of_not_mem {cs : List Char} (h : '_' ∉ cs) (previous : Option Char) :
    dropUnderscores? previous cs = some cs := by
  induction cs generalizing previous with
  | nil => rfl
  | cons c cs ih =>
    rw [List.mem_cons, not_or] at h
    have hc : c ≠ '_' := fun he => h.1 he.symm
    rw [dropUnderscores?, ih h.2, Option.map_some]
    exact fun he => hc he

theorem isSpace_of_isNumberChar {c : Char} (h : isNumberChar c = true) : isSpace c = false := by
  simp only [isNumberChar, Bool.or_eq_true, beq_iff_eq] at h
  rcases h with (((h | rfl) | rfl) | rfl) | rfl
  · obtain ⟨hlo, hhi⟩ := toNat_of_isDigit h
    simp only [isSpace, Bool.or_eq_false_iff, Bool.and_eq_false_iff, decide_eq_false_iff_not,
      beq_eq_false_iff_ne, ne_eq]
    omega
  all_goals decide

theorem toLower_of_isDigit {c : Char} (h : c.isDigit = true) : c.toLower = c := by
  obtain ⟨hlo, hhi⟩ := toNat_of_isDigit h
  apply dif_neg
  rintro ⟨hA, -⟩
  have : 65 ≤ c.toNat := hA
  omega

theorem isWhole_iff {cs : List Char} :
    isWhole cs = true ↔ ∀ c ∈ cs, ¬ (c = '.' ∨ c = 'e' ∨ c = 'E') := by
  rw [isWhole, Bool.not_eq_true', List.any_eq_false]
  simp only [Bool.or_eq_true, beq_iff_eq, or_assoc]

namespace Parts

variable (p : Parts)

theorem power_none {p : Parts} (h : p.power? = none) : p.power = [] := by
  rw [power, h, Option.elim_none]

theorem power_some {p : Parts} {m : Int} (h : p.power? = some m) :
    p.power = 'e' :: (if m < 0 then '-' else '+') :: (Nat.toDigits 10 m.natAbs).leftpad 2 '0' := by
  rw [power, h, Option.elim_some, Layout.exponent]

theorem isNumberChar_power : ∀ c ∈ p.power, isNumberChar c = true := by
  intro c hc
  cases h : p.power? with
  | none => simp [power_none h] at hc
  | some m =>
    rw [power_some h, List.mem_cons, List.mem_cons] at hc
    rcases hc with rfl | rfl | hc
    · rfl
    · split <;> rfl
    · exact isNumberChar_of_isDigit (isDigit_leftpad_toDigits 2 _ c hc)

theorem isNumberChar_unsigned : ∀ c ∈ p.unsigned, isNumberChar c = true := by
  intro c hc
  simp only [unsigned, point, List.mem_append] at hc
  rcases hc with hc | hc | hc
  · exact isNumberChar_of_isDigit (p.isDigit_whole c hc)
  · split at hc
    · cases hc
    · rcases List.mem_cons.1 hc with rfl | hc
      · rfl
      · exact isNumberChar_of_isDigit (p.isDigit_fraction c hc)
  · exact p.isNumberChar_power c hc

theorem isNumberChar_chars : ∀ c ∈ p.chars, isNumberChar c = true := by
  intro c hc
  rcases List.mem_append.1 hc with h | h
  · split at h
    · rw [List.mem_singleton.1 h]
      rfl
    · cases h
  · exact p.isNumberChar_unsigned c h

theorem unsigned_eq_cons : ∃ c cs, p.unsigned = c :: cs ∧ c.isDigit = true := by
  obtain ⟨c, cs, hw⟩ := List.exists_cons_of_ne_nil p.whole_ne_nil
  refine ⟨c, cs ++ (p.point ++ p.power), ?_, p.isDigit_whole c ?_⟩
  · rw [unsigned, hw, List.cons_append]
  · rw [hw]
    exact List.mem_cons_self

theorem chars_ne_nil : p.chars ≠ [] := by
  obtain ⟨c, cs, h, _⟩ := p.unsigned_eq_cons
  rw [chars, h]
  simp

theorem sign_chars : sign p.chars = (p.negative, p.unsigned) := by
  obtain ⟨c, cs, h, hc⟩ := p.unsigned_eq_cons
  cases hn : p.negative with
  | true => simp [chars, hn, sign]
  | false =>
    have hplus : c ≠ '+' := by
      rintro rfl
      exact absurd hc (by decide)
    have hminus : c ≠ '-' := by
      rintro rfl
      exact absurd hc (by decide)
    simp [chars, hn, h, sign, hplus, hminus]

theorem stops_power : Stops isDigit p.power := by
  cases h : p.power? with
  | none => simp [power_none h]
  | some m =>
    rw [power_some h, stops_cons]
    decide

theorem body_unsigned : body p.unsigned = (p.whole, p.fraction, p.power) := by
  have hwhole : ∀ c ∈ p.whole, isDigit c = true := fun c hc =>
    isDigit_of_isDigit (p.isDigit_whole c hc)
  have hfraction : ∀ c ∈ p.fraction, isDigit c = true := fun c hc =>
    isDigit_of_isDigit (p.isDigit_fraction c hc)
  by_cases hf : p.fraction = []
  · have hpoint : p.point = [] := if_pos hf
    have hrest : ∀ rest, p.power ≠ '.' :: rest := by
      intro rest h
      cases hp : p.power? with
      | none => simp [power_none hp] at h
      | some m => simp [power_some hp] at h
    rw [unsigned, hpoint, List.nil_append, body, dropWhile_run hwhole p.stops_power,
      takeWhile_run hwhole p.stops_power, hf]
    split
    next rest h => exact absurd h (hrest rest)
    next => rfl
  · have hpoint : p.point = '.' :: p.fraction := if_neg hf
    have hstop : Stops isDigit ('.' :: (p.fraction ++ p.power)) := by
      rw [stops_cons]
      decide
    rw [unsigned, hpoint, List.cons_append, body, dropWhile_run hwhole hstop,
      takeWhile_run hwhole hstop]
    change (p.whole, (p.fraction ++ p.power).takeWhile isDigit,
      (p.fraction ++ p.power).dropWhile isDigit) = _
    rw [takeWhile_run hfraction p.stops_power, dropWhile_run hfraction p.stops_power]

theorem exponent?_power : exponent? p.power = some (p.power?.getD 0) := by
  cases h : p.power? with
  | none =>
    rw [power_none h]
    rfl
  | some m =>
    have hdigits := isDigit_leftpad_toDigits 2 m.natAbs
    have hval : digitsValue ((Nat.toDigits 10 m.natAbs).leftpad 2 '0') = m.natAbs := by
      rw [digitsValue_of_isDigit hdigits, ofDigitChars_leftpad_toDigits]
    have hmark := exponent?_mark (m < 0) ((Nat.toDigits 10 m.natAbs).leftpad 2 '0')
      (by simp [List.leftpad]) fun c hc => isDigit_of_isDigit (hdigits c hc)
    rw [hval] at hmark
    simp only [decide_eq_true_eq] at hmark
    rw [power_some h, hmark, Option.getD_some, Option.some.injEq]
    split <;> omega

theorem isDigit_digits : ∀ c ∈ p.whole ++ p.fraction, c.isDigit = true := by
  intro c hc
  rcases List.mem_append.1 hc with h | h
  · exact p.isDigit_whole c h
  · exact p.isDigit_fraction c h

theorem read?_chars : read? p.chars = some p.decimal := by
  have hne : ¬ (p.whole = [] ∧ p.fraction = []) := fun h => p.whole_ne_nil h.1
  simp only [read?, sign_chars, body_unsigned, exponent?_power, if_neg hne, Option.map_some,
    digitsValue_of_isDigit p.isDigit_digits, decimal]

theorem isNumeral_chars : isNumeral p.chars = true := by
  rw [isNumeral, read?_chars, Option.isSome_some]

theorem isWhole_chars : isWhole p.chars = true ↔ p.IsWhole := by
  rw [isWhole_iff]
  constructor
  · intro h
    refine ⟨?_, ?_⟩
    · by_contra hf
      apply h '.' _ (Or.inl rfl)
      simp [chars, unsigned, point, hf]
    · cases hp : p.power? with
      | none => rfl
      | some m =>
        refine absurd (Or.inr (Or.inl rfl)) (h 'e' ?_)
        simp [chars, unsigned, power_some hp]
  · rintro ⟨hf, hp⟩ c hc hmark
    have hun : p.unsigned = p.whole ++ p.fraction := by
      rw [unsigned, point, if_pos hf, power_none hp, hf, List.append_nil]
    rw [chars, hun, List.mem_append] at hc
    rcases hc with hc | hc
    · cases hn : p.negative <;> simp [hn] at hc
      subst hc
      revert hmark
      decide
    · have hdigit := p.isDigit_digits c hc
      rcases hmark with rfl | rfl | rfl <;> exact absurd hdigit (by decide)

/-! ## Literals -/

theorem trimBy_chars : trimBy isSpace p.chars = p.chars := by
  apply trimBy_of_not
  intro c hc
  exact isSpace_of_isNumberChar (p.isNumberChar_chars c hc)

theorem dropUnderscores?_chars : dropUnderscores? none p.chars = some p.chars := by
  apply dropUnderscores?_of_not_mem
  intro h
  exact absurd (p.isNumberChar_chars _ h) (by decide)

/-- No written number is one of the names of the special values. -/
theorem special?_chars : special? p.chars = none := by
  obtain ⟨c, cs, h, hc⟩ := p.unsigned_eq_cons
  have hlower : c.toLower = c := toLower_of_isDigit hc
  have hname : ∀ name : String, name.toList.head?.all (fun d => !d.isDigit) = true →
      String.ofList (p.unsigned.map Char.toLower) ≠ name := by
    rintro name hname rfl
    simp [h, hlower, hc] at hname
  simp only [special?, sign_chars]
  split
  next he => exact absurd he (hname _ (by decide))
  next he => exact absurd he (hname _ (by decide))
  next he => exact absurd he (hname _ (by decide))
  next => rfl

theorem floatLiteral?_chars : floatLiteral? p.chars = some (.ofDecimal .double p.decimal) := by
  simp only [floatLiteral?, trimBy_chars, dropUnderscores?_chars, Option.bind_some,
    special?_chars, Option.none_or, read?_chars, Option.map_some]

theorem intLiteral?_chars (h : p.IsWhole) (hlimit : DigitLimit.standard.admits p.whole = true) :
    intLiteral? p.chars = some p.integer := by
  have hun : p.unsigned = p.whole := by
    rw [unsigned, point, if_pos h.1, power_none h.2, List.append_nil, List.append_nil]
  have hcond : p.whole ≠ [] ∧ p.whole.all isDigit = true ∧
      DigitLimit.standard.admits p.whole = true := by
    refine ⟨p.whole_ne_nil, ?_, hlimit⟩
    rw [List.all_eq_true]
    exact fun c hc => isDigit_of_isDigit (p.isDigit_whole c hc)
  simp only [intLiteral?, trimBy_chars, dropUnderscores?_chars, Option.bind_some, int?,
    sign_chars, hun, digitsValue_of_isDigit p.isDigit_whole, integer]
  rw [if_pos hcond]

end Parts

end Numeral

namespace Layout

open Numeral (Parts)

/-- The doubles whose text in formulas has a point or a power of ten: those that are not
integers, and those that are too large for positional notation. -/
def ShowsDouble : Double → Prop
  | .finite s r =>
    ¬ (Binary.finite s r : Double).IsIntegral ∨ 21 ≤ (Binary.shortest .double s r).magnitude
  | _ => False

theorem formula_decimal_congr {d d' : Decimal} (h : d.Same d') :
    formula.decimal d.magnitude d = formula.decimal d'.magnitude d' := by
  simp only [decimal, h.1, h.magnitude_eq, h.digits_eq]

/-- The decimal that is shown for a finite number is another spelling of the shortest one. -/
theorem formula_byDigits_finite {f : FloatFormat} (s : Bool) (r : Fin f.count) :
    formula.byDigits (.finite s r : Binary f) =
      formula.decimal (Binary.shortest f s r).magnitude (Binary.shortest f s r) := by
  obtain ⟨p, hshown, hsame, -⟩ := exists_parts value (Binary.exact f s r).magnitude
    (Binary.shortest f s r)
  have hread : Numeral.read? (value.byValue (.finite s r : Binary f)) = some p.decimal := by
    rw [← p.read?_chars, hshown, byValue]
  simp only [byDigits, hread]
  exact formula_decimal_congr hsame

theorem exists_parts_formula {x : Double} (h : ShowsDouble x) :
    ∃ p : Parts, p.chars = formula.byDigits x ∧ ¬ p.IsWhole ∧
      Numeral.floatLiteral? p.chars = some x := by
  cases x with
  | nan => cases h
  | infinity s => cases h
  | finite s r =>
    obtain ⟨p, hchars, hsame, hwhole⟩ := exists_parts formula
      (Binary.shortest .double s r).magnitude (Binary.shortest .double s r)
    have hread := hsame.ofDecimal_eq .double
    rw [Binary.ofDecimal_shortest] at hread
    refine ⟨p, hchars.trans (formula_byDigits_finite s r).symm, ?_, ?_⟩
    · intro hp
      rcases h with h | h
      · apply h
        refine Binary.isIntegral_of_ofDecimal ?_ hread
        simp [Parts.decimal, hp.1, hp.2]
      · have := (hwhole hp).2
        change _ < (21 : Int) at this
        omega
    · rw [Parts.floatLiteral?_chars, hread]

end Layout

end Formulary
