import Formulary.Proofs.Number.Numeral

/-!
# Numerals as literals

A numeral is made of digits, signs, a point and an exponent mark. It has neither white space nor
underscores, so the looser readings take it as it stands: every numeral is a literal of a double,
and one without point and exponent is a literal of an integer.
-/
namespace Formulary.Numeral

open Text

def isNumeralChar (c : Char) : Bool :=
  isDigit c || c == '+' || c == '-' || c == '.' || c == 'e' || c == 'E'

/-! ## The characters of a numeral -/

theorem mem_sign {c : Char} {cs : List Char} (h : c ∈ cs) (hplus : c ≠ '+') (hminus : c ≠ '-') :
    c ∈ (sign cs).2 := by
  unfold sign
  split
  · simpa [hplus] using h
  · simpa [hminus] using h
  · exact h

theorem mem_rest_body {c : Char} {cs : List Char} (h : c ∈ cs) (hdigit : isDigit c = false)
    (hpoint : c ≠ '.') : c ∈ (body cs).2.2 := by
  have hdrop : ∀ ds : List Char, c ∈ ds → c ∈ ds.dropWhile isDigit := by
    intro ds hds
    rw [← List.takeWhile_append_dropWhile (p := isDigit) (l := ds), List.mem_append] at hds
    rcases hds with hds | hds
    · rw [List.mem_takeWhile_imp hds] at hdigit
      cases hdigit
    · exact hds
  have hrest := hdrop cs h
  unfold body
  split
  next rest he =>
    rw [he, List.mem_cons] at hrest
    exact hdrop rest (hrest.resolve_left hpoint)
  next => exact hrest

theorem isNumeralChar_eq_false {c : Char} : isNumeralChar c = false ↔
    isDigit c = false ∧ c ≠ '+' ∧ c ≠ '-' ∧ c ≠ '.' ∧ c ≠ 'e' ∧ c ≠ 'E' := by
  simp [isNumeralChar, and_assoc]

theorem exponent?_of_mem {c : Char} {cs : List Char} (h : c ∈ cs) (hc : isNumeralChar c = false) :
    exponent? cs = none := by
  obtain ⟨hdigit, hplus, hminus, -, he, hE⟩ := isNumeralChar_eq_false.1 hc
  cases cs with
  | nil => cases h
  | cons d cs =>
    unfold exponent?
    dsimp only
    rw [if_neg]
    rintro ⟨hmark, -, hall⟩
    have hmem : c ∈ cs := by
      rcases List.mem_cons.1 h with rfl | h
      · exact absurd hmark (by simp [he, hE])
      · exact h
    rw [List.all_eq_true.1 hall c (mem_sign hmem hplus hminus)] at hdigit
    cases hdigit

theorem isNumeral_of_mem {c : Char} {cs : List Char} (h : c ∈ cs) (hc : isNumeralChar c = false) :
    isNumeral cs = false := by
  obtain ⟨hdigit, hplus, hminus, hpoint, -⟩ := isNumeralChar_eq_false.1 hc
  have hmem := mem_rest_body (mem_sign h hplus hminus) hdigit hpoint
  have hread : read? cs = none := by
    unfold read?
    dsimp only
    split_ifs
    · rfl
    · rw [exponent?_of_mem hmem hc, Option.map_none]
  rw [isNumeral, hread, Option.isSome_none]

theorem isNumeralChar_of_mem {cs : List Char} (h : isNumeral cs = true) :
    ∀ c ∈ cs, isNumeralChar c = true := by
  intro c hmem
  by_contra hc
  rw [isNumeral_of_mem hmem (Bool.eq_false_iff.2 hc)] at h
  cases h

/-! ## Literals -/

theorem exists_zero_of_isDigit {c : Char} (h : isDigit c = true) :
    ∃ z ∈ digitZeros, z ≤ c.toNat ∧ c.toNat < z + 10 := by
  obtain ⟨z, hz, hc⟩ := List.findSome?_isSome_iff.1 h
  refine ⟨z, hz, ?_⟩
  by_contra hne
  rw [if_neg hne] at hc
  cases hc

theorem isSpace_of_isDigit {c : Char} (h : isDigit c = true) : isSpace c = false := by
  obtain ⟨z, hz, hrange⟩ := exists_zero_of_isDigit h
  have hzeros : ∀ z ∈ digitZeros, z = 48 ∨ (160 < z ∧ z + 10 ≤ 5760) ∨
      (5760 < z ∧ z + 10 ≤ 8192) ∨ 12288 < z := by decide
  have := hzeros z hz
  simp only [isSpace, Bool.or_eq_false_iff, Bool.and_eq_false_iff, decide_eq_false_iff_not,
    beq_eq_false_iff_ne, ne_eq]
  omega

theorem isSpace_of_isNumeralChar {c : Char} (h : isNumeralChar c = true) : isSpace c = false := by
  simp only [isNumeralChar, Bool.or_eq_true, beq_iff_eq] at h
  rcases h with ((((h | rfl) | rfl) | rfl) | rfl) | rfl
  · exact isSpace_of_isDigit h
  all_goals decide

theorem trimBy_of_isNumeral {cs : List Char} (h : isNumeral cs = true) :
    trimBy isSpace cs = cs := by
  apply trimBy_of_not
  intro c hc
  exact isSpace_of_isNumeralChar (isNumeralChar_of_mem h c hc)

theorem dropUnderscores?_of_isNumeral {cs : List Char} (h : isNumeral cs = true) :
    dropUnderscores? none cs = some cs := by
  apply dropUnderscores?_of_not_mem
  intro hmem
  exact absurd (isNumeralChar_of_mem h _ hmem) (by decide)

theorem isSome_floatLiteral? {cs : List Char} (h : isNumeral cs = true) :
    (floatLiteral? cs).isSome = true := by
  obtain ⟨d, hd⟩ := Option.isSome_iff_exists.1 h
  rw [floatLiteral?, trimBy_of_isNumeral h, dropUnderscores?_of_isNumeral h, Option.bind_some, hd]
  cases special? cs <;> rfl

theorem mem_of_mem_sign {c : Char} {cs : List Char} (h : c ∈ (sign cs).2) : c ∈ cs := by
  unfold sign at h
  split at h
  · exact List.mem_cons_of_mem _ h
  · exact List.mem_cons_of_mem _ h
  · exact h

theorem mark_of_exponent? {c : Char} {cs : List Char} {e : Int} (h : exponent? (c :: cs) = some e) :
    c = 'e' ∨ c = 'E' := by
  unfold exponent? at h
  dsimp only at h
  split at h
  next hmark => exact hmark.1
  next => cases h

/-- An optional sign and digits. -/
def IsInteger (cs : List Char) : Prop := (sign cs).2 ≠ [] ∧ (sign cs).2.all isDigit = true

/-- Without point and exponent there is nothing in a numeral but its sign and its digits. -/
theorem isInteger_of_isWhole {cs : List Char} (h : isNumeral cs = true)
    (hwhole : isWhole cs = true) : IsInteger cs := by
  unfold IsInteger
  have hmarks : ∀ c ∈ (sign cs).2, ¬ (c = '.' ∨ c = 'e' ∨ c = 'E') := fun c hc =>
    isWhole_iff.1 hwhole c (mem_of_mem_sign hc)
  have hrest : ∀ c ∈ (sign cs).2.dropWhile isDigit, c ∈ (sign cs).2 := fun c hc =>
    (List.dropWhile_sublist isDigit).subset hc
  obtain ⟨d, hd⟩ := Option.isSome_iff_exists.1 h
  unfold read? at hd
  dsimp only at hd
  generalize (sign cs).2 = u at *
  have hbody : body u = (u.takeWhile isDigit, [], u.dropWhile isDigit) := by
    unfold body
    split
    next rest he => exact absurd (Or.inl rfl) (hmarks '.' (hrest '.' (by simp [he])))
    next => rfl
  rw [hbody] at hd
  dsimp only at hd
  split_ifs at hd with hempty
  obtain ⟨e, he, -⟩ := Option.map_eq_some_iff.1 hd
  have hnil : u.dropWhile isDigit = [] := by
    cases hdrop : u.dropWhile isDigit with
    | nil => rfl
    | cons c ds =>
      rw [hdrop] at he
      exact absurd (Or.inr (mark_of_exponent? he)) (hmarks c (hrest c (by simp [hdrop])))
  have hu : u.takeWhile isDigit = u := by
    have := List.takeWhile_append_dropWhile (p := isDigit) (l := u)
    rwa [hnil, List.append_nil] at this
  rw [hu] at hempty
  refine ⟨fun hnil => hempty ⟨hnil, rfl⟩, ?_⟩
  rw [← hu]
  exact List.all_takeWhile

/-! ## Doubles -/

theorem eq_of_toLower {c : Char} (h : c.toLower = 'n') : c = 'n' ∨ c = 'N' := by
  unfold Char.toLower at h
  split at h
  next hupper =>
    have hle : c.toNat ≤ 90 := hupper.2
    have hval : (c.toNat + 32) % 4294967296 = 110 := congrArg (·.toNat) h
    exact .inr (Char.toNat_inj.1 (by change c.toNat = 78; omega))
  next => exact .inl h

/-- No numeral is the name of a special value, all of which have an `n`. -/
theorem special?_of_isNumeral {cs : List Char} (h : isNumeral cs = true) : special? cs = none := by
  have hname : ∀ name : String, 'n' ∈ name.toList →
      String.ofList ((sign cs).2.map Char.toLower) ≠ name := by
    rintro name hn rfl
    rw [String.toList_ofList, List.mem_map] at hn
    obtain ⟨c, hc, hlower⟩ := hn
    have hnumeral := isNumeralChar_of_mem h c (mem_of_mem_sign hc)
    rcases eq_of_toLower hlower with rfl | rfl <;> exact absurd hnumeral (by decide)
  unfold special?
  dsimp only
  split
  next he => exact absurd he (hname _ (by decide))
  next he => exact absurd he (hname _ (by decide))
  next he => exact absurd he (hname _ (by decide))
  next => rfl

theorem floatLiteral?_of_read? {cs : List Char} {d : Decimal} (h : read? cs = some d) :
    floatLiteral? cs = some (.ofDecimal .double d) := by
  have hnumeral : isNumeral cs = true := by rw [isNumeral, h, Option.isSome_some]
  rw [floatLiteral?, trimBy_of_isNumeral hnumeral, dropUnderscores?_of_isNumeral hnumeral,
    Option.bind_some, special?_of_isNumeral hnumeral, h, Option.none_or, Option.map_some]

theorem ne_nil_of_isNumeral {cs : List Char} (h : isNumeral cs = true) : cs ≠ [] := by
  rintro rfl
  cases h

theorem trimBy_append_newline {cs : List Char} (hne : cs ≠ []) (h : ∀ c ∈ cs, isSpace c = false) :
    trimBy isSpace (cs ++ ['\n']) = trimBy isSpace cs := by
  obtain ⟨c, cs, rfl⟩ := List.exists_cons_of_ne_nil hne
  have hc : isSpace c = false := h c List.mem_cons_self
  have hnewline : isSpace '\n' = true := by decide
  rw [trimBy, trimBy, List.cons_append, List.dropWhile_cons_of_neg (by simp [hc]),
    List.dropWhile_cons_of_neg (by simp [hc]), ← List.cons_append, List.reverse_append,
    List.reverse_singleton, List.singleton_append, List.dropWhile_cons_of_pos hnewline]

/-- The literal is a numeral for the decimal; a newline may stand behind it. -/
def Denotes (literal : List Char) (d : Decimal) : Prop :=
  read? literal = some d ∨ ∃ cs, literal = cs ++ ['\n'] ∧ read? cs = some d

theorem Denotes.floatLiteral?_eq {literal : List Char} {d : Decimal} (h : Denotes literal d) :
    floatLiteral? literal = some (.ofDecimal .double d) := by
  rcases h with h | ⟨cs, rfl, h⟩
  · exact floatLiteral?_of_read? h
  · have hnumeral : isNumeral cs = true := by rw [isNumeral, h, Option.isSome_some]
    have hspace : ∀ c ∈ cs, isSpace c = false := fun c hc =>
      isSpace_of_isNumeralChar (isNumeralChar_of_mem hnumeral c hc)
    rw [← floatLiteral?_of_read? h, floatLiteral?,
      trimBy_append_newline (ne_nil_of_isNumeral hnumeral) hspace]
    rfl

/-! ## Integers -/

/-- A sign and digits are a numeral without point and exponent. -/
theorem IsInteger.isNumeral {cs : List Char} (h : IsInteger cs) : isNumeral cs = true := by
  obtain ⟨hne, hdigits⟩ := h
  have hrest : (sign cs).2.dropWhile isDigit = [] :=
    List.dropWhile_eq_nil_iff.2 (List.all_eq_true.1 hdigits)
  have hbody : body (sign cs).2 = ((sign cs).2, [], []) := by
    rw [body, hrest, List.takeWhile_eq_self_iff.2 (List.all_eq_true.1 hdigits)]
  rw [Numeral.isNumeral, read?]
  simp [hbody, hne, exponent?]

theorem IsInteger.isWhole {cs : List Char} (h : IsInteger cs) : isWhole cs = true := by
  rw [isWhole_iff]
  intro c hc hmark
  have hsign : c ≠ '+' ∧ c ≠ '-' := by
    rcases hmark with rfl | rfl | rfl <;> decide
  have hdigit := List.all_eq_true.1 h.2 c (mem_sign hc hsign.1 hsign.2)
  rcases hmark with rfl | rfl | rfl <;> exact absurd hdigit (by decide)

theorem IsInteger.intLiteral?_eq {cs : List Char} (h : IsInteger cs) :
    intLiteral? cs = int? cs := by
  have hnumeral := h.isNumeral
  rw [intLiteral?, trimBy_of_isNumeral hnumeral, dropUnderscores?_of_isNumeral hnumeral,
    Option.bind_some]

theorem isInteger_of_int? {cs : List Char} {n : Int} (h : int? cs = some n) : IsInteger cs := by
  by_contra hdigits
  unfold int? at h
  dsimp only at h
  rw [if_neg fun hall => hdigits ⟨hall.1, hall.2.1⟩] at h
  cases h

/-- An integer with more digits than the limit allows. -/
def IsLong (cs : List Char) : Prop :=
  IsInteger cs ∧ DigitLimit.standard.admits (sign cs).2 = false

theorem isLong_replicate {n : Nat} (h : 4300 < n) : IsLong (List.replicate n '1') := by
  obtain ⟨k, rfl⟩ := Nat.exists_eq_add_one.2 (Nat.zero_lt_of_lt h)
  have hsign : (sign (List.replicate (k + 1) '1')).2 = List.replicate (k + 1) '1' := rfl
  refine ⟨⟨by rw [hsign]; exact nofun, ?_⟩, ?_⟩
  · rw [hsign, List.all_replicate]
    simp [show isDigit '1' = true by decide]
  · rw [hsign, DigitLimit.admits, List.length_replicate]
    exact decide_eq_false (by omega)

theorem IsInteger.int?_eq_none_iff {cs : List Char} (h : IsInteger cs) :
    int? cs = none ↔ IsLong cs := by
  simp [int?, IsLong, h, h.1, h.2]

end Formulary.Numeral
