import Formulary.Expr.Parser
import Formulary.Proofs.Expr.Basic
import Formulary.Proofs.Form.Reading
import Formulary.Proofs.Number.Numeral
import Formulary.Proofs.Symbol
import Formulary.Proofs.Token

/-!
# Reading what was printed

The text of an expression is cut into tokens that make one form, and the form denotes the
expression again, whatever text follows as long as it does not continue a word. The induction is
on the expression: a leaf is one token, and the tokens of a list are those of its elements between
parentheses.
-/
namespace Formulary

open Text (Stops stops_nil stops_cons)
open Token (Lexed.append Lexed.append_append IsWord isWordChar lexFrom)

/-- The symbols whose text is read as a symbol again. -/
structure Symbol.Readable (s : Symbol) : Prop where
  isWord : IsWord s.chars
  notNumeral : Numeral.isNumeral s.chars = false
  colons : (s.space = "" ∧ ':' ∉ s.name.toList) ∨
    (s.space ≠ "" ∧ ':' ∉ s.space.toList ∧ s.name.toList.head? ≠ some ':')

/-- The atoms whose text is read as the same atom again. -/
def Atom.Readable : Atom → Prop
  | .int kind n => kind = .int64 ∧ IntKind.int64.contains n = true
  | .double x => Layout.ShowsDouble x
  | .string _ => True
  | .symbol s => s.Readable
  | _ => False

/-- Every leaf is a 64-bit integer, a string, a double that shows as one or a readable symbol. -/
def Expr.Readable (e : Expr) : Prop := e.Leaves Atom.Readable

/-! ## Leaves -/

namespace Numeral.Parts

theorem isWord_chars (p : Parts) : IsWord p.chars where
  ne_nil := p.chars_ne_nil
  isWordChar c hc := by
    have hn := p.isNumberChar_chars c hc
    simp only [isNumberChar, Bool.or_eq_true, beq_iff_eq] at hn
    rcases hn with (((h | rfl) | rfl) | rfl) | rfl
    · obtain ⟨hlo, hhi⟩ := Text.toNat_of_isDigit h
      have hne : ∀ d : Char, d.toNat < 48 ∨ 57 < d.toNat → c ≠ d := by
        rintro d hd rfl
        omega
      have hblank : Text.isBlank c = false := by
        rw [Text.isBlank, isSpace_of_isNumberChar (isNumberChar_of_isDigit h), Bool.false_or,
          Bool.and_eq_false_iff, decide_eq_false_iff_not, decide_eq_false_iff_not]
        omega
      simp [isWordChar, hblank, hne '(' (by decide), hne ')' (by decide), hne '\x22' (by decide),
        hne ';' (by decide)]
    all_goals decide
  noComment h := by
    have := p.isNumberChar_chars '/' (h.subset List.mem_cons_self)
    exact absurd this (by decide)

end Numeral.Parts

theorem Symbol.parse?_chars {s : Symbol} (h : s.Readable) : parse? s.chars = some s :=
  parse?_chars_iff.2 h.colons

theorem Form.ofWord_numeral (pos : Position) (p : Numeral.Parts) :
    ofWord pos p.chars = .number pos p.chars (if p.IsWhole then .whole else .real) := by
  rw [ofWord, if_pos p.isNumeral_chars]
  congr 1
  by_cases h : p.IsWhole
  · rw [if_pos h, if_pos (p.isWhole_chars.2 h)]
  · rw [if_neg h, if_neg fun hw => h (p.isWhole_chars.1 hw)]

theorem Form.toAtom_ofWord {a : Atom} (ha : a.Readable) (hs : ∀ s, a ≠ .string s)
    (pos : Position) : IsWord a.chars ∧ (ofWord pos a.chars).toAtom = .ok a := by
  cases a with
  | int kind n =>
    obtain ⟨rfl, hn⟩ := ha
    have hchars : Atom.chars (.int .int64 n) = (Numeral.Parts.ofInt n).chars :=
      (Numeral.Parts.chars_ofInt n).symm
    rw [hchars, ofWord_numeral, if_pos (Numeral.Parts.isWhole_ofInt n)]
    have hread := Numeral.Parts.intLiteral?_chars _ (Numeral.Parts.isWhole_ofInt n)
      (DigitLimit.admitsInt_of_contains hn)
    refine ⟨Numeral.Parts.isWord_chars _, ?_⟩
    simp only [toAtom, hread, Numeral.Parts.integer_ofInt, hn, if_true]
  | double x =>
    obtain ⟨p, hchars, hwhole, hread⟩ := Layout.exists_parts_formula ha
    rw [Atom.chars, ← hchars, ofWord_numeral, if_neg hwhole]
    exact ⟨p.isWord_chars, by simp only [toAtom, hread]⟩
  | symbol s =>
    refine ⟨ha.isWord, ?_⟩
    rw [Atom.chars, ofWord, if_neg (by simp [ha.notNumeral])]
    simp only [toAtom, Symbol.parse?_chars ha]
  | string s => exact absurd rfl (hs s)
  | bool b => cases ha
  | single x => cases ha
  | bytes bs => cases ha

theorem Form.toExpr_of_toAtom {form : Form} {a : Atom} (h : form.toAtom = .ok a) :
    form.toExpr = .ok (.atom form.source a) := by
  cases form with
  | list pos items => cases h
  | _ => rw [toExpr, h] <;> first | rfl | (intros; contradiction)

namespace Expr

/-- The text is cut into tokens that make a form of the expression, whatever follows. -/
def ReadBack (lines : LineIndex) (e : Expr) : Prop :=
  ∀ offset rest, Stops isWordChar rest → ∃ ts form e',
    lexFrom offset (e.chars ++ rest) = Lexed.append ts (lexFrom (offset + e.chars.length) rest) ∧
      Form.Reads lines ts form ∧ form.toExpr = .ok e' ∧ e'.bare = e.bare

theorem readBack_atom (lines : LineIndex) (source : Source) {a : Atom} (ha : a.Readable) :
    ReadBack lines (.atom source a) := by
  intro offset rest hrest
  by_cases hs : ∃ s, a = .string s
  · obtain ⟨s, rfl⟩ := hs
    refine ⟨_, _, _, Token.lexFrom_quoteString offset s.toList rest,
      Form.reads_string (unescape_quoteString s.toList) offset, Form.toExpr_of_toAtom rfl, ?_⟩
    rw [bare, bare, String.ofList_toList]
  · obtain ⟨hword, hatom⟩ := Form.toAtom_ofWord ha (fun s hs' => hs ⟨s, hs'⟩)
      (lines.position offset)
    exact ⟨_, _, _, Token.lexFrom_word hword hrest offset, Form.reads_word _ offset,
      Form.toExpr_of_toAtom hatom, by rw [bare, bare]⟩

/-- The same for the elements of a list, with spaces between them and a parenthesis after them. -/
theorem readBack_items (lines : LineIndex) {es : List Expr} (hes : ∀ e ∈ es, ReadBack lines e)
    (offset : Nat) (rest : List Char) : ∃ ts forms es',
      lexFrom offset (List.intercalate [' '] (es.map chars) ++ ')' :: rest) =
        Lexed.append ts
          (lexFrom (offset + (List.intercalate [' '] (es.map chars)).length) (')' :: rest)) ∧
      Form.ReadsItems lines ts forms ∧ (∀ index, Form.toExprs index forms = .ok es') ∧
      es'.map bare = es.map bare := by
  have hclose : ∀ cs, Stops isWordChar (')' :: cs) := fun cs => stops_cons.2 (by decide)
  have hspace : ∀ cs, Stops isWordChar (' ' :: cs) := fun cs => stops_cons.2 (by decide)
  induction es generalizing offset with
  | nil =>
    refine ⟨[], [], [], ?_, Form.readsItems_nil, fun _ => rfl, rfl⟩
    simp [Lexed.append]
  | cons e es ih =>
    rw [List.forall_mem_cons] at hes
    cases es with
    | nil =>
      obtain ⟨ts, form, e', hlex, hreads, hform, hbare⟩ := hes.1 offset _ (hclose rest)
      refine ⟨ts ++ [], [form], [e'], ?_, Form.readsItems_cons hreads Form.readsItems_nil, ?_, ?_⟩
      · simpa using hlex
      · intro index
        simp only [Form.toExprs, hform]
        rfl
      · simp [hbare]
    | cons d es =>
      have hjoin : List.intercalate [' '] ((e :: d :: es).map chars) =
          e.chars ++ ' ' :: List.intercalate [' '] ((d :: es).map chars) := by
        simp [List.intercalate_cons_cons]
      obtain ⟨us, forms, es', hlexs, hreadss, hforms, hbares⟩ :=
        ih hes.2 (offset + e.chars.length + 1)
      obtain ⟨ts, form, e', hlex, hreads, hform, hbare⟩ := hes.1 offset _
        (hspace (List.intercalate [' '] ((d :: es).map chars) ++ ')' :: rest))
      refine ⟨ts ++ us, form :: forms, e' :: es', ?_, Form.readsItems_cons hreads hreadss, ?_, ?_⟩
      · have hlen : offset + e.chars.length + 1 +
            (List.intercalate [' '] ((d :: es).map chars)).length =
            offset + (e.chars ++ ' ' :: List.intercalate [' '] ((d :: es).map chars)).length := by
          rw [List.length_append, List.length_cons]
          omega
        rw [hjoin, List.append_assoc, List.cons_append, hlex,
          Token.lexFrom_blank (by decide), hlexs, Lexed.append_append, hlen]
      · intro index
        simp only [Form.toExprs, hform, hforms]
        rfl
      · rw [List.map_cons, List.map_cons, hbare, hbares]

theorem readBack_list (lines : LineIndex) (source : Source) {es : List Expr}
    (hes : ∀ e ∈ es, ReadBack lines e) : ReadBack lines (.list source es) := by
  intro offset rest _
  obtain ⟨ts, forms, es', hlex, hreads, hforms, hbare⟩ :=
    readBack_items lines hes (offset + 1) rest
  refine ⟨_, _, .list (some (.str (lines.position offset).text)) es', ?_,
    Form.reads_list hreads ['('] [')'] offset
      (offset + 1 + (List.intercalate [' '] (es.map chars)).length), ?_, ?_⟩
  · have hchars : (Expr.list source es).chars ++ rest =
        '(' :: (List.intercalate [' '] (es.map chars) ++ ')' :: rest) := by
      simp [chars, charsAll_eq]
    have hlen : offset + (Expr.list source es).chars.length =
        offset + 1 + (List.intercalate [' '] (es.map chars)).length + 1 := by
      simp only [chars, charsAll_eq, List.cons_append, List.length_cons, List.length_append,
        List.length_nil]
      omega
    rw [hchars, hlen, Token.lexFrom_opening, hlex, Token.lexFrom_closing, Lexed.append_append,
      Lexed.append_append]
    rfl
  · rw [Form.toExpr, hforms]
    rfl
  · rw [bare, bare, bareAll_eq, bareAll_eq, hbare]

theorem readBack_of_readable (lines : LineIndex) {e : Expr} (h : e.Readable) :
    ReadBack lines e := by
  induction e with
  | atom source a => exact readBack_atom lines source (leaves_atom.1 h)
  | list source es ih =>
    exact readBack_list lines source fun e he => ih e he (leaves_list.1 h e he)

theorem exists_parse_of_readable (file : String) {e : Expr} (h : e.Readable) :
    ∃ e', parse file e.chars = .ok e' ∧ e'.bare = e.bare := by
  obtain ⟨ts, form, e', hlex, hreads, hform, hbare⟩ :=
    readBack_of_readable (.ofSource file e.chars) h 0 [] stops_nil
  rw [List.append_nil, Token.lexFrom_nil] at hlex
  have htokens : lex e.chars = ⟨ts, none⟩ := by
    rw [lex, hlex, Lexed.append, List.append_nil]
  refine ⟨e', ?_, hbare⟩
  rw [parse, Form.readForm_of_reads htokens hreads]
  exact hform

theorem notNan_of_readable {a : Atom} (h : a.Readable) : a.NotNan := by
  cases a with
  | double x =>
    rintro rfl
    cases h
  | single x => cases h
  | _ => trivial

/-- Printing and parsing give an expression back, up to the source contexts of its nodes. -/
theorem parse_chars (file : String) (e : Expr) (h : e.Readable) :
    ∃ e', parse file e.chars = .ok e' ∧ e'.bare = e.bare ∧ e'.same e = true := by
  obtain ⟨e', hparse, hbare⟩ := exists_parse_of_readable file h
  exact ⟨e', hparse, hbare, same_of_bare_eq hbare (h.imp fun _ => notNan_of_readable)⟩

theorem parse_chars_nested :
    let e : Expr := .list (some (.str "here")) [.atom none (.symbol ⟨"f", "ns"⟩),
      .atom none (.string "/* \" ; (\n"), .atom none (.int .int64 (-7)),
      .atom none (.double (.finite false ⟨1022 * 2 ^ 52, by decide⟩)),
      .list none [.atom none (.symbol ⟨"k", Symbol.keywordSpace⟩)]]
    e.Readable ∧
      ∃ e', parse "a.formula" e.chars = .ok e' ∧ e'.bare = e.bare ∧ e'.same e = true := by
  intro e
  have hsymbol : (Symbol.mk "f" "ns").Readable ∧ (Symbol.mk "k" Symbol.keywordSpace).Readable :=
    ⟨⟨⟨by decide, List.all_eq_true.1 (by decide), by decide⟩, by decide, by decide⟩,
      ⟨⟨by decide, List.all_eq_true.1 (by decide), by decide⟩, by decide, by decide⟩⟩
  have hhalf : Layout.ShowsDouble (.finite false ⟨1022 * 2 ^ 52, by decide⟩) :=
    Or.inl (by rw [Binary.isIntegral_finite_iff]; decide +kernel)
  have he : e.Readable := by
    simp only [e, Readable, leaves_list, leaves_atom, List.forall_mem_cons, Atom.Readable]
    exact ⟨hsymbol.1, trivial, ⟨trivial, by decide⟩, hhalf, ⟨hsymbol.2, by simp⟩, by simp⟩
  exact ⟨he, parse_chars "a.formula" e he⟩

end Expr

end Formulary
