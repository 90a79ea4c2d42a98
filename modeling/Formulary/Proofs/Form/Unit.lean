import Formulary.Proofs.Form.Failure

/-!
# The units of string literals

Inside a string literal the lexer takes a backslash together with the character behind it, and
every other character by itself. An escape by number is longer than its unit, but its digits are
units by themselves, so that behind every escape the rest of the literal is again a whole number of
units. Resolving a literal therefore meets all of its backslashes and no others, and what it gives
can be read off the units.
-/
namespace Formulary

/-- What the lexer takes at a time inside a string literal. -/
inductive LiteralUnit where
  /-- A backslash with the character behind it. -/
  | escape (c : Char)
  | plain (c : Char)
deriving DecidableEq, Repr

namespace LiteralUnit

def chars : LiteralUnit → List Char
  | .escape c => ['\\', c]
  | .plain c => [c]

/-- A character by itself neither begins an escape nor ends the literal. -/
def Proper : LiteralUnit → Prop
  | .escape _ => True
  | .plain c => c ≠ '\\' ∧ c ≠ '\x22'

/-- The literal is made of the units, with a quote at both ends. -/
def Cuts (literal : List Char) (us : List LiteralUnit) : Prop :=
  literal = '\x22' :: (us.flatMap chars ++ ['\x22']) ∧ ∀ u ∈ us, u.Proper

/-- The seven escapes that name a character each. -/
inductive Simple : Char → Char → Prop
  | newline : Simple 'n' '\n'
  | tab : Simple 't' '\t'
  | carriageReturn : Simple 'r' '\r'
  | backslash : Simple '\\' '\\'
  | quote : Simple '\x22' '\x22'
  | apostrophe : Simple '\x27' '\x27'
  | zero : Simple '0' '\x00'

/-- How many digits an escape by number has. -/
inductive Width : Char → Nat → Prop
  | two : Width 'x' 2
  | four : Width 'u' 4
  | eight : Width 'U' 8

/-- The units behind the letter of an escape by number begin with its digits, which name the
code. -/
def Names (letter : Char) (behind : List LiteralUnit) (code : Nat) : Prop :=
  ∃ digits after, Width letter digits.length ∧ Text.ofHex? digits = some code ∧
    behind = digits.map plain ++ after

/-- The escape is one of the simple ones, or one by number with all its digits, which name a code
point. -/
def Complete (c : Char) (behind : List LiteralUnit) : Prop :=
  (∃ d, Simple c d) ∨ ∃ code, Names c behind code ∧ code ≤ 0x10FFFF

/-- The text that units denote: one character for each escape, with the digits that belong to it,
and for each character that stands by itself. -/
inductive Denotes : List LiteralUnit → List Char → Prop
  | nil : Denotes [] []
  | plain (c : Char) {us : List LiteralUnit} {text : List Char} (h : Denotes us text) :
      Denotes (.plain c :: us) (c :: text)
  | simple {c d : Char} {us : List LiteralUnit} {text : List Char} (hc : Simple c d)
      (h : Denotes us text) : Denotes (.escape c :: us) (d :: text)
  | code {letter d : Char} {digits text : List Char} {behind after : List LiteralUnit}
      (hwidth : Width letter digits.length) (hcode : Text.ofHex? digits = some d.toNat)
      (hbehind : behind = digits.map LiteralUnit.plain ++ after) (h : Denotes after text) :
      Denotes (.escape letter :: behind) (d :: text)

/-- No escape names a code that is reserved for half of a pair. -/
def NoSurrogate (us : List LiteralUnit) : Prop :=
  ∀ c behind code, .escape c :: behind <:+ us → Names c behind code →
    code < 0xD800 ∨ 0xDFFF < code

/-! ## The tables -/

theorem simple?_eq_some_iff {c d : Char} : Escape.simple? c = some d ↔ Simple c d := by
  constructor
  · intro h
    unfold Escape.simple? at h
    split at h
    all_goals cases h
    all_goals constructor
  · rintro (_ | _ | _ | _ | _ | _ | _) <;> rfl

theorem width?_eq_some_iff {c : Char} {n : Nat} : Escape.width? c = some n ↔ Width c n := by
  constructor
  · intro h
    unfold Escape.width? at h
    split at h
    all_goals cases h
    all_goals constructor
  · rintro (_ | _ | _) <;> rfl

theorem isValidChar_iff {code : Nat} :
    code.isValidChar ↔ (code < 0xD800 ∨ 0xDFFF < code) ∧ code ≤ 0x10FFFF := by
  rw [Nat.isValidChar]
  omega

/-! ## Cutting a literal -/

theorem chars_escape_cons (c : Char) (us : List LiteralUnit) :
    (escape c :: us).flatMap chars = '\\' :: c :: us.flatMap chars := rfl

theorem chars_plain_cons (c : Char) (us : List LiteralUnit) :
    (plain c :: us).flatMap chars = c :: us.flatMap chars := rfl

theorem chars_run (run : List Char) (us : List LiteralUnit) :
    (run.map plain ++ us).flatMap chars = run ++ us.flatMap chars := by
  induction run with
  | nil => rfl
  | cons c run ih => rw [List.map_cons, List.cons_append, chars_plain_cons, ih, List.cons_append]

/-- Characters that are no backslashes are units by themselves. -/
theorem eq_run_append {us : List LiteralUnit} {run rest : List Char}
    (hrun : ∀ c ∈ run, c ≠ '\\') (h : us.flatMap chars = run ++ rest) :
    ∃ after, us = run.map plain ++ after ∧ after.flatMap chars = rest := by
  induction run generalizing us with
  | nil => exact ⟨us, rfl, h⟩
  | cons c run ih =>
    rw [List.forall_mem_cons] at hrun
    cases us with
    | nil => cases h
    | cons u us =>
      cases u with
      | escape d => exact absurd (List.cons.inj h).1.symm hrun.1
      | plain d =>
        obtain ⟨rfl, htail⟩ := List.cons.inj h
        obtain ⟨after, rfl, hafter⟩ := ih hrun.2 htail
        exact ⟨after, rfl, hafter⟩

theorem exists_units {body : List Char} (h : Token.Quoted body) :
    ∃ us : List LiteralUnit, body = us.flatMap chars ∧ ∀ u ∈ us, u.Proper := by
  induction h with
  | nil => exact ⟨[], rfl, nofun⟩
  | escape c _ ih =>
    obtain ⟨us, rfl, hus⟩ := ih
    exact ⟨.escape c :: us, rfl, List.forall_mem_cons.2 ⟨trivial, hus⟩⟩
  | plain hb hq _ ih =>
    obtain ⟨us, rfl, hus⟩ := ih
    exact ⟨.plain _ :: us, rfl, List.forall_mem_cons.2 ⟨⟨hb, hq⟩, hus⟩⟩

theorem Cuts.unescape_eq {literal : List Char} {us : List LiteralUnit} (h : Cuts literal us) :
    unescape literal = Escape.resolve (us.flatMap chars) := by
  rw [unescape, h.1, List.drop_one, List.tail_cons, List.dropLast_concat]

/-! ## One escape by number -/

variable {letter : Char} {us after : List LiteralUnit} {digits text : List Char} {code : Nat}

theorem code?_run (hwidth : Width letter digits.length) (rest : List Char) :
    Escape.code? letter (digits ++ rest) = Text.ofHex? digits := by
  simp [Escape.code?, width?_eq_some_iff.2 hwidth]

theorem code?_eq_some_iff :
    Escape.code? letter (us.flatMap chars) = some code ↔ Names letter us code := by
  constructor
  · intro h
    obtain ⟨width, hwidth, h⟩ := Option.bind_eq_some_iff.1 h
    split_ifs at h with hlength
    have hplain : ∀ c ∈ (us.flatMap chars).take width, c ≠ '\\' := by
      rintro c hc rfl
      exact absurd (Text.isSome_hexValue?_of_ofHex? h _ hc) (by decide)
    obtain ⟨after, hus, -⟩ := eq_run_append hplain (List.take_append_drop _ _).symm
    refine ⟨_, after, ?_, h, hus⟩
    rw [List.length_take_of_le hlength]
    exact width?_eq_some_iff.1 hwidth
  · rintro ⟨digits, after, hwidth, hcode, rfl⟩
    rw [chars_run, code?_run hwidth, hcode]

theorem resolve_width {width : Nat} (h : Width letter width) (cs : List Char) :
    Escape.resolve ('\\' :: letter :: cs) = (do
      let d ← Escape.charOfDigits letter width cs
      let text ← Escape.resolve (cs.drop width)
      return d :: text) := by
  have hsimple : Escape.simple? letter = none := by cases h <;> rfl
  rw [Escape.resolve, if_pos rfl]
  simp only [hsimple, width?_eq_some_iff.2 h]

/-- An escape by number takes its digits along, and the rest starts with a unit again. -/
theorem resolve_number (hwidth : Width letter digits.length)
    (hcode : Text.ofHex? digits = some code) (after : List LiteralUnit) :
    Escape.resolve ((escape letter :: (digits.map plain ++ after)).flatMap chars) = (do
      let d ← Escape.charOfCode code
      let text ← Escape.resolve (after.flatMap chars)
      return d :: text) := by
  have hdigits : Escape.charOfDigits letter digits.length (digits ++ after.flatMap chars) =
      Escape.charOfCode code := by
    rw [Escape.charOfDigits_eq (width?_eq_some_iff.2 hwidth), code?_run hwidth, hcode]
  rw [chars_escape_cons, chars_run, resolve_width hwidth, hdigits, List.drop_left]

theorem resolve_not_names {width : Nat} (hwidth : Width letter width)
    (h : ∀ code, ¬ Names letter us code) :
    Escape.resolve ((escape letter :: us).flatMap chars) = .error (.badDigits letter) := by
  have hnone : Escape.code? letter (us.flatMap chars) = none := by
    rw [Option.eq_none_iff_forall_ne_some]
    intro code hcode
    exact h code (code?_eq_some_iff.1 hcode)
  rw [chars_escape_cons, resolve_width hwidth,
    Escape.charOfDigits_eq (width?_eq_some_iff.2 hwidth), hnone]
  rfl

theorem charOfCode_eq_ok_iff {d : Char} : Escape.charOfCode code = .ok d ↔ code = d.toNat := by
  constructor
  · intro h
    unfold Escape.charOfCode at h
    by_cases hvalid : code.isValidChar
    · rw [dif_pos hvalid] at h
      cases h
      rfl
    · rw [dif_neg hvalid] at h
      cases h
  · rintro rfl
    exact Escape.charOfCode_toNat d

/-! ## All units -/

theorem Denotes.resolve_eq (h : Denotes us text) (hus : ∀ u ∈ us, u.Proper) :
    Escape.resolve (us.flatMap chars) = .ok text := by
  induction h with
  | nil => rw [List.flatMap_nil, Escape.resolve]
  | plain c _ ih =>
    rw [List.forall_mem_cons] at hus
    rw [chars_plain_cons, Escape.resolve_plain hus.1.1, ih hus.2]
    rfl
  | simple hc _ ih =>
    rw [List.forall_mem_cons] at hus
    rw [chars_escape_cons, Escape.resolve_simple (simple?_eq_some_iff.2 hc), ih hus.2]
    rfl
  | code hwidth hcode hbehind _ ih =>
    subst hbehind
    rw [List.forall_mem_cons, List.forall_mem_append] at hus
    rw [resolve_number hwidth hcode, Escape.charOfCode_toNat, ih hus.2.2]
    rfl

/-- The induction is on the number of units: behind an escape by number the rest starts past its
digits. -/
theorem denotes_of_resolve (hus : ∀ u ∈ us, u.Proper)
    (h : Escape.resolve (us.flatMap chars) = .ok text) : Denotes us text := by
  induction hn : us.length using Nat.strong_induction_on generalizing us text with
  | _ n ih =>
    subst hn
    cases us with
    | nil =>
      rw [List.flatMap_nil, Escape.resolve] at h
      cases h
      exact .nil
    | cons u us =>
      rw [List.forall_mem_cons] at hus
      have hlt : us.length < (u :: us).length := Nat.lt_succ_self _
      cases u with
      | plain c =>
        rw [chars_plain_cons, Escape.resolve_plain hus.1.1] at h
        obtain ⟨rest, hrest, rfl⟩ := map_ok_iff.1 h
        exact .plain c (ih _ hlt hus.2 hrest rfl)
      | escape c =>
        cases hsimple : Escape.simple? c with
        | some d =>
          rw [chars_escape_cons, Escape.resolve_simple hsimple] at h
          obtain ⟨rest, hrest, rfl⟩ := map_ok_iff.1 h
          exact .simple (simple?_eq_some_iff.1 hsimple) (ih _ hlt hus.2 hrest rfl)
        | none =>
          cases hwidth : Escape.width? c with
          | none =>
            rw [chars_escape_cons, Escape.resolve, if_pos rfl] at h
            simp only [hsimple, hwidth] at h
            cases h
          | some width =>
            by_cases hnames : ∃ code, Names c us code
            · obtain ⟨code, digits, after, hdigits, hcode, rfl⟩ := hnames
              rw [resolve_number hdigits hcode] at h
              obtain ⟨d, hd, h⟩ := bind_ok_iff.1 h
              obtain ⟨rest, hrest, h⟩ := bind_ok_iff.1 h
              cases h
              obtain rfl := charOfCode_eq_ok_iff.1 hd
              rw [List.forall_mem_append] at hus
              have hlt : after.length < (escape c :: (digits.map plain ++ after)).length := by
                rw [List.length_cons, List.length_append]
                omega
              exact .code hdigits hcode rfl (ih _ hlt hus.2.2 hrest rfl)
            · rw [resolve_not_names (width?_eq_some_iff.1 hwidth) (not_exists.1 hnames)] at h
              cases h

theorem resolve_eq_ok_iff (hus : ∀ u ∈ us, u.Proper) :
    Escape.resolve (us.flatMap chars) = .ok text ↔ Denotes us text :=
  ⟨denotes_of_resolve hus, fun h => h.resolve_eq hus⟩

/-! ## Units that denote a text -/

theorem escape_suffix_run {c : Char} {behind : List LiteralUnit}
    (h : escape c :: behind <:+ digits.map plain ++ us) : escape c :: behind <:+ us := by
  induction digits with
  | nil => exact h
  | cons d digits ih =>
    rw [List.map_cons, List.cons_append, List.suffix_cons_iff] at h
    rcases h with h | h
    · cases h
    · exact ih h

theorem Denotes.complete (h : Denotes us text) {c : Char} {behind : List LiteralUnit}
    (hmem : escape c :: behind <:+ us) : Complete c behind := by
  induction h with
  | nil => cases List.suffix_nil.1 hmem
  | plain d _ ih =>
    rcases List.suffix_cons_iff.1 hmem with hfirst | hmem
    · cases hfirst
    · exact ih hmem
  | simple hc _ ih =>
    rcases List.suffix_cons_iff.1 hmem with hfirst | hmem
    · cases hfirst
      exact .inl ⟨_, hc⟩
    · exact ih hmem
  | @code _ d digits _ _ after hwidth hcode hbehind _ ih =>
    rcases List.suffix_cons_iff.1 hmem with hfirst | hmem
    · cases hfirst
      have hle := (isValidChar_iff.1 d.valid).2
      exact .inr ⟨d.toNat, ⟨digits, after, hwidth, hcode, hbehind⟩, hle⟩
    · rw [hbehind] at hmem
      exact ih (escape_suffix_run hmem)

theorem exists_denotes (hsurrogate : NoSurrogate us)
    (h : ∀ c behind, escape c :: behind <:+ us → Complete c behind) :
    ∃ text, Denotes us text := by
  induction hn : us.length using Nat.strong_induction_on generalizing us with
  | _ n ih =>
    subst hn
    cases us with
    | nil => exact ⟨[], .nil⟩
    | cons u us =>
      -- what is left behind the first character of the text is a suffix of all units
      have hrest : ∀ rest, rest <:+ us → ∃ text, Denotes rest text := by
        intro rest hsuffix
        have hsuffix' := hsuffix.trans (List.suffix_cons u us)
        have hlt : rest.length < (u :: us).length := Nat.lt_succ_of_le hsuffix.length_le
        exact ih _ hlt (fun c behind code hmem => hsurrogate c behind code (hmem.trans hsuffix'))
          (fun c behind hmem => h c behind (hmem.trans hsuffix')) rfl
      cases u with
      | plain c =>
        obtain ⟨text, htext⟩ := hrest us List.suffix_rfl
        exact ⟨_, .plain c htext⟩
      | escape c =>
        rcases h c us List.suffix_rfl with ⟨d, hd⟩ | ⟨code, hnames, hle⟩
        · obtain ⟨text, htext⟩ := hrest us List.suffix_rfl
          exact ⟨_, .simple hd htext⟩
        · have hpaired := hsurrogate c us code List.suffix_rfl hnames
          have hvalid := isValidChar_iff.2 ⟨hpaired, hle⟩
          obtain ⟨digits, after, hwidth, hcode, rfl⟩ := hnames
          obtain ⟨text, htext⟩ := hrest after (List.suffix_append _ _)
          have hd : Text.ofHex? digits = some (Char.ofNatAux code hvalid).toNat := hcode
          exact ⟨_, .code hwidth hd rfl htext⟩

/-! ## Literals of the lexer -/

/-- A string literal that the lexer finds in a text can be cut into units, and resolving it never
looks for a character behind its end. It gives what the units denote, and it fails if and only if
some backslash begins no complete escape. -/
theorem unescape_of_mem_lex (source : List Char) (t : Token) (ht : t ∈ (lex source).tokens)
    (hkind : t.kind = .string) :
    unescape t.text ≠ .error .truncated ∧ (∃ us, Cuts t.text us) ∧
      ∀ us, Cuts t.text us →
        (∀ text, unescape t.text = .ok text ↔ Denotes us text) ∧
        (NoSurrogate us → ((∃ e, unescape t.text = .error e) ↔
          ∃ c behind, escape c :: behind <:+ us ∧ ¬ Complete c behind)) := by
  have hlexeme := Form.lexeme_of_mem_lex t ht
  obtain ⟨kind, literal, offset⟩ := t
  dsimp only at hkind hlexeme ⊢
  subst hkind
  cases hlexeme with
  | @string body hbody =>
  obtain ⟨cut, rfl, hcut⟩ := exists_units hbody
  have hcuts : Cuts ('\x22' :: (cut.flatMap chars ++ ['\x22'])) cut := ⟨rfl, hcut⟩
  refine ⟨?_, ⟨cut, hcuts⟩, ?_⟩
  · intro h
    rw [hcuts.unescape_eq] at h
    rcases Escape.resolve_error hbody h with hreading | ⟨code, -, -, htruncated⟩
    · cases hreading
    · cases htruncated
  · intro us hus
    have hok : ∀ text, unescape _ = .ok text ↔ Denotes us text := fun text => by
      rw [hus.unescape_eq]
      exact resolve_eq_ok_iff hus.2
    refine ⟨hok, fun hsurrogate => ⟨?_, ?_⟩⟩
    · rintro ⟨e, he⟩
      by_contra hcomplete
      simp only [not_exists, not_and, not_not] at hcomplete
      obtain ⟨text, htext⟩ := exists_denotes hsurrogate hcomplete
      cases he.symm.trans ((hok text).2 htext)
    · rintro ⟨c, behind, hmem, hincomplete⟩
      cases hresult : unescape ('\x22' :: (cut.flatMap chars ++ ['\x22'])) with
      | error e => exact ⟨e, rfl⟩
      | ok text => exact absurd (((hok text).1 hresult).complete hmem) hincomplete

/-- A pair of backslashes is one unit, so that the digits behind it are plain; an escape in the
place of a digit belongs to no escape by number. -/
theorem unescape_of_mem_lex_pair :
    let source := "(\"\\\\x41\\x41\" \"\\x4\\\"\")".toList
    let aligned : Token := ⟨.string, "\"\\\\x41\\x41\"".toList, 1⟩
    let broken : Token := ⟨.string, "\"\\x4\\\"\"".toList, 13⟩
    aligned ∈ (lex source).tokens ∧ broken ∈ (lex source).tokens ∧
      unescape aligned.text = .ok "\\x41A".toList ∧
      NoSurrogate [escape 'x', plain '4', escape '\x22'] ∧
      ∃ e, unescape broken.text = .error e := by
  intro source aligned broken
  have hlex : lex source =
      ⟨[⟨.opening, ['('], 0⟩, aligned, broken, ⟨.closing, [')'], 20⟩], none⟩ := by decide +kernel
  have haligned : aligned ∈ (lex source).tokens := by simp [hlex]
  have hbroken : broken ∈ (lex source).tokens := by simp [hlex]
  have hnames : ∀ code, ¬ Names 'x' [plain '4', escape '\x22'] code := by
    rintro code ⟨digits, after, hwidth, -, h⟩
    have htwo : digits.length = 2 := (Option.some.inj (width?_eq_some_iff.2 hwidth)).symm
    obtain ⟨a, b, rfl⟩ := List.length_eq_two.1 htwo
    cases h
  have hsurrogate : NoSurrogate [escape 'x', plain '4', escape '\x22'] := by
    intro c behind code hmem hcode
    simp only [List.suffix_cons_iff, List.suffix_nil, List.cons.injEq, reduceCtorEq, or_false,
      false_and, false_or] at hmem
    rcases hmem with ⟨⟨⟩, rfl⟩ | ⟨⟨⟩, rfl⟩
    · exact absurd hcode (hnames code)
    · obtain ⟨digits, after, hwidth, -⟩ := hcode
      cases hwidth
  refine ⟨haligned, hbroken, ?_, hsurrogate, ?_⟩
  · have hcuts : Cuts aligned.text [escape '\\', plain 'x', plain '4', plain '1', escape 'x',
        plain '4', plain '1'] := ⟨by decide +kernel, by simp [Proper]⟩
    obtain ⟨-, -, hunits⟩ := unescape_of_mem_lex source aligned haligned rfl
    have hwidth : Width 'x' ['4', '1'].length := .two
    have hcode : Text.ofHex? ['4', '1'] = some 'A'.toNat := by decide
    have hlast : Denotes [escape 'x', plain '4', plain '1'] ['A'] := .code hwidth hcode rfl .nil
    exact ((hunits _ hcuts).1 _).2 (.simple .backslash (.plain 'x' (.plain '4' (.plain '1' hlast))))
  · have hcuts : Cuts broken.text [escape 'x', plain '4', escape '\x22'] :=
      ⟨by decide +kernel, by simp [Proper]⟩
    obtain ⟨-, -, hunits⟩ := unescape_of_mem_lex source broken hbroken rfl
    refine ((hunits _ hcuts).2 hsurrogate).2 ⟨'x', _, List.suffix_rfl, ?_⟩
    rintro (⟨d, hd⟩ | ⟨code, hcode, -⟩)
    · cases hd
    · exact hnames code hcode

end LiteralUnit

end Formulary
