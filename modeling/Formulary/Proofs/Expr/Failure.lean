import Formulary.Expr.Parser
import Formulary.Proofs.Form.Failure
import Formulary.Proofs.Form.Placement
import Formulary.Proofs.Number.Literal

/-!
# How parsing fails

A number form that was read has a numeral for its literal, so its conversion finds a number, and
what is left to fail are the errors of the parser itself. Only an escape that names a code above
the last character and an integer with more digits than the limit allows pass through as errors of
another kind.
-/
namespace Formulary

namespace ParseError

theorem kind_atForm (pos : Position) (index : Nat) (e : ParseError) :
    (e.atForm pos index).kind = e.kind := by
  unfold atForm
  split <;> rfl

/-- The parser takes over the errors of the reader, and lets those of a refused code pass. -/
theorem kind_reading {codes : List Nat} {e : ReadError} (h : FailsWith codes e.kind) :
    (reading e).kind = .parsing ∨ RefusedCode codes (reading e).kind := by
  rw [kind]
  split_ifs with hown
  · exact .inl rfl
  · right
    refine h.resolve_left fun hreading => hown ?_
    rw [hreading]
    rfl

end ParseError

/-- One of the tokens is an integer with more digits than the limit allows. -/
def HasLongInteger (ts : List Token) : Prop :=
  ∃ t ∈ ts, t.kind = .word ∧ Numeral.IsLong t.text

theorem HasLongInteger.mono {ts us : List Token} (h : HasLongInteger ts) (hsub : ts ⊆ us) :
    HasLongInteger us := by
  obtain ⟨t, ht, hlong⟩ := h
  exact ⟨t, hsub ht, hlong⟩

namespace Form

/-! ## Converting -/

/-- The kinds with which the conversion of a form fails that the tokens spell. -/
def FailsToConvert (ts : List Token) (kind : FailureKind) : Prop :=
  kind = .parsing ∨ (kind = .value ∧ HasLongInteger ts)

theorem FailsToConvert.mono {ts us : List Token} {kind : FailureKind}
    (h : FailsToConvert ts kind) (hsub : ts ⊆ us) : FailsToConvert us kind :=
  h.imp_right fun ⟨hkind, hlong⟩ => ⟨hkind, hlong.mono hsub⟩

theorem kind_toAtom_ofWord {pos : Position} {text : List Char} {e : ParseError}
    (h : (ofWord pos text).toAtom = .error e) :
    e.kind = .parsing ∨ (e.kind = .value ∧ Numeral.IsLong text) := by
  unfold ofWord at h
  split_ifs at h with hnumeral hwhole
  · have hinteger := Numeral.isInteger_of_isWhole hnumeral hwhole
    simp only [toAtom, hinteger.intLiteral?_eq] at h
    split at h
    next hnone =>
      cases h
      exact .inr ⟨rfl, hinteger.int?_eq_none_iff.1 hnone⟩
    next =>
      split_ifs at h
      cases h
      exact .inl rfl
  · obtain ⟨x, hx⟩ := Option.isSome_iff_exists.1 (Numeral.isSome_floatLiteral? hnumeral)
    simp only [toAtom, hx] at h
    cases h
  · simp only [toAtom] at h
    split at h
    · cases h
      exact .inl rfl
    · cases h

theorem toExpr_ofWord (pos : Position) (text : List Char) :
    (ofWord pos text).toExpr = (ofWord pos text).toAtom.map (.atom (ofWord pos text).source) := by
  unfold ofWord
  split_ifs <;> simp only [toExpr]

variable {lines : LineIndex}

theorem failsToConvert_atom {ts : List Token} {form : Form} {e : ParseError}
    (hlist : ∀ pos items, form ≠ .list pos items) (hform : Spells lines ts form)
    (h : form.toExpr = .error e) : FailsToConvert ts e.kind := by
  cases hform with
  | string =>
    simp only [toExpr] at h
    cases h
  | @word t ht =>
    rw [toExpr_ofWord, map_error_iff] at h
    exact (kind_toAtom_ofWord h).imp_right fun hkind => ⟨hkind.1, t, by simp, ht, hkind.2⟩
  | list => exact absurd rfl (hlist _ _)

/-- A list fails at one of its items, with the error of the item. -/
theorem failsToConvert_items {groups : List (List Token)} {items : List Form} {index : Nat}
    {e : ParseError}
    (hitems : ∀ form ∈ items, ∀ ts cause, Spells lines ts form → form.toExpr = .error cause →
      FailsToConvert ts cause.kind)
    (hspells : List.Forall₂ (Spells lines) groups items) (h : toExprs index items = .error e) :
    FailsToConvert groups.flatten e.kind := by
  induction hspells generalizing index with
  | nil => cases h
  | cons hform _ ih =>
    obtain ⟨hfirst, hrest⟩ := List.forall_mem_cons.1 hitems
    rw [List.flatten_cons]
    rw [toExprs] at h
    split at h
    next cause hcause =>
      cases h
      rw [ParseError.kind_atForm]
      exact (hfirst _ cause hform hcause).mono (List.subset_append_left _ _)
    next =>
      rw [map_error_iff] at h
      exact (ih hrest h).mono (List.subset_append_right _ _)

theorem failsToConvert {ts : List Token} {form : Form} {e : ParseError}
    (hform : Spells lines ts form) (h : form.toExpr = .error e) : FailsToConvert ts e.kind := by
  induction form generalizing ts e with
  | list pos items ih =>
    obtain ⟨s, t, groups, rfl, -, -, hitems⟩ := hform.exists_groups
    rw [toExpr, map_error_iff] at h
    have hinside : groups.flatten ⊆ s :: (groups.flatten ++ [t]) :=
      List.subset_cons_of_subset _ (List.subset_append_left _ _)
    exact (failsToConvert_items (fun form hmem ts cause => ih form hmem) hitems h).mono hinside
  | _ => exact failsToConvert_atom (by simp) hform h

theorem Occurs.failsToConvert {file : String} {source : List Char} {t : Token} {form : Form}
    {e : ParseError} (hform : Occurs file source t form) (h : form.toExpr = .error e) :
    FailsToConvert (lex source).tokens e.kind := by
  obtain ⟨rest, hinfix, hspells⟩ := hform
  exact (Form.failsToConvert hspells h).mono hinfix.subset

end Form

namespace Expr

/-! ## Parsing -/

theorem kind_parse {file : String} {source : List Char} {e : ParseError}
    (h : parse file source = .error e) :
    Form.FailsToConvert (lex source).tokens e.kind ∨ RefusedCode (escapeCodes source) e.kind := by
  unfold parse at h
  split at h
  next cause _ hread =>
    cases h
    exact (ParseError.kind_reading (Reader.failsWith_readForm hread)).imp_left .inl
  next =>
    cases h
    exact .inl (.inl rfl)
  next form reader hread =>
    split at h
    next cause hpeek =>
      cases h
      exact (ParseError.kind_reading (.inl (Reader.kind_peek hpeek))).imp_left .inl
    next =>
      cases h
      exact .inl (.inl rfl)
    next =>
      obtain ⟨t, hform⟩ := Form.exists_occurs_readForm hread
      exact .inl (hform.failsToConvert h)

theorem kind_parseForms {tokens : List Token} {after? : Option ReadError} {forms : List Form}
    {f : Failure}
    (hforms : ∀ form ∈ forms, ∀ e, form.toExpr = .error e → Form.FailsToConvert tokens e.kind)
    (h : (parseForms after? forms).2 = some f) :
    Form.FailsToConvert tokens f.kind ∨ ∃ e, after? = some e ∧ f.kind = e.kind := by
  induction forms with
  | nil =>
    obtain ⟨e, he, rfl⟩ := Option.map_eq_some_iff.1 h
    exact .inr ⟨e, he, rfl⟩
  | cons form forms ih =>
    obtain ⟨hform, hrest⟩ := List.forall_mem_cons.1 hforms
    rw [parseForms] at h
    split at h
    next e he =>
      cases h
      exact .inl (hform e he)
    next => exact ih hrest h

theorem kind_parseAll {file : String} {source : List Char} {f : Failure}
    (h : (parseAll file source).2 = some f) :
    Form.FailsToConvert (lex source).tokens f.kind ∨ FailsWith (escapeCodes source) f.kind := by
  have hforms : ∀ form ∈ (Form.readAll file source).1, ∀ e, form.toExpr = .error e →
      Form.FailsToConvert (lex source).tokens e.kind := by
    intro form hform e he
    obtain ⟨t, hoccurs⟩ := Form.exists_occurs_readAll hform
    exact hoccurs.failsToConvert he
  refine (kind_parseForms hforms h).imp_right ?_
  rintro ⟨e, he, hkind⟩
  rw [hkind]
  exact Form.failsWith_readAll he

/-- A code of no character that is no surrogate either lies above the last character. -/
theorem above_of_refused {codes : List Nat} {kind : FailureKind}
    (hcodes : ∀ code ∈ codes, ¬ (0xD800 ≤ code ∧ code < 0xE000)) (h : RefusedCode codes kind) :
    ∃ code ∈ codes, 0x110000 ≤ code ∧ kind = if code < 0x80000000 then .value else .overflow := by
  obtain ⟨code, hcode, hvalid, hkind⟩ := h
  have hsurrogate := hcodes code hcode
  refine ⟨code, hcode, ?_, hkind⟩
  simp only [Nat.isValidChar] at hvalid
  omega

/-- Where the escapes name no surrogate, parsing fails with errors of the parser, and reading all
forms with those of the reader or the parser, unless an escape names a code above the last
character or an integer has more digits than the limit allows. -/
theorem kind_of_failure (file : String) (source : List Char)
    (hcodes : ∀ code ∈ escapeCodes source, ¬ (0xD800 ≤ code ∧ code < 0xE000)) :
    (∀ e, parse file source = .error e → e.kind = .parsing ∨
      (∃ code ∈ escapeCodes source, 0x110000 ≤ code ∧
        e.kind = if code < 0x80000000 then .value else .overflow) ∨
      (e.kind = .value ∧ HasLongInteger (lex source).tokens)) ∧
    (∀ f, (parseAll file source).2 = some f → f.kind = .reading ∨ f.kind = .parsing ∨
      (∃ code ∈ escapeCodes source, 0x110000 ≤ code ∧
        f.kind = if code < 0x80000000 then .value else .overflow) ∨
      (f.kind = .value ∧ HasLongInteger (lex source).tokens)) := by
  constructor
  · intro e h
    rcases kind_parse h with (hparsing | hlong) | hrefused
    · exact .inl hparsing
    · exact .inr (.inr hlong)
    · exact .inr (.inl (above_of_refused hcodes hrefused))
  · intro f h
    rcases kind_parseAll h with (hparsing | hlong) | hreading | hrefused
    · exact .inr (.inl hparsing)
    · exact .inr (.inr (.inr hlong))
    · exact .inl hreading
    · exact .inr (.inr (.inl (above_of_refused hcodes hrefused)))

/-- The number is too large; the codes of the literal in front of it are those of characters. -/
theorem kind_of_failure_tooLarge :
    let source := "(f \"\\x41\\u00e9\" 9223372036854775808)".toList
    escapeCodes source = [0x41, 0xE9] ∧ ∃ e, parse "" source = .error e ∧ e.kind = .parsing := by
  intro source
  have hcodes : escapeCodes source = [0x41, 0xE9] := by decide +kernel
  have hfails : (parse "" source).isOk = false := by decide +kernel
  cases hparse : parse "" source with
  | ok e =>
    rw [hparse] at hfails
    cases hfails
  | error e =>
    refine ⟨hcodes, e, rfl, ((kind_of_failure "" source ?_).1 e hparse).resolve_right ?_⟩
    · rw [hcodes]
      decide
    · rintro (⟨code, hmem, habove, -⟩ | ⟨-, t, ht, -, -, hlong⟩)
      · rw [hcodes] at hmem
        simp only [List.mem_cons, List.not_mem_nil, or_false] at hmem
        omega
      · have hshort : ∀ t ∈ (lex source).tokens,
            DigitLimit.standard.admits (Numeral.sign t.text).2 = true := by decide +kernel
        cases (hshort t ht).symm.trans hlong

/-- An escape can name a code above the last character, and parsing does not fail with an error of
its own there. -/
theorem not_kind_of_failure :
    ¬ ∀ (file : String) (source : List Char),
      (∀ code ∈ escapeCodes source, ¬ (0xD800 ≤ code ∧ code < 0xE000)) →
      (∀ e, parse file source = .error e → e.kind = .parsing) ∧
      (∀ f, (parseAll file source).2 = some f → f.kind = .reading ∨ f.kind = .parsing) := by
  intro h
  let source := "\"\\U00110000\"".toList
  have hcodes : escapeCodes source = [0x110000] := by decide +kernel
  have hparse : (parse "" source).map (fun _ => ()) =
      .error (.reading (.badEscape ⟨"", 1, 1⟩ source (.noCharacter 0x110000))) := by
    decide +kernel
  have hkind := (h "" source (by rw [hcodes]; decide)).1 _ (map_error_iff.1 hparse)
  exact absurd hkind (by decide)

end Expr

end Formulary
