import Formulary.Proofs.Expr.Built
import Formulary.Proofs.Form.Placement

/-!
# Where expressions stand in a text

The expressions of a text come from its forms, part by part, and each has the position of its
form as its source context. So an expression at any depth can be traced to the token at which it
begins.
-/
namespace Formulary

theorem Position.text_ne_empty (p : Position) : p.text ≠ "" := by
  intro h
  have hchars := congrArg String.toList h
  simp [text] at hchars

namespace Expr

variable {file : String} {source : List Char} {t : Token} {e : Expr}

/-- The expression comes from a form of the text that begins with the token. -/
def StandsAt (file : String) (source : List Char) (t : Token) (e : Expr) : Prop :=
  ∃ form, Form.Occurs file source t form ∧ form.toExpr = .ok e

/-- The expression is what a text holds, or one of those that it holds. -/
def ParsedFrom (file : String) (source : List Char) (e : Expr) : Prop :=
  parse file source = .ok e ∨ e ∈ (parseAll file source).1

theorem source_of_toExpr {form : Form} (h : form.toExpr = .ok e) :
    e.source = some (.str form.pos.text) := by
  cases form with
  | list pos items =>
    obtain ⟨es, -, rfl⟩ := map_ok_iff.1 h
    rfl
  | _ =>
    obtain ⟨a, -, rfl⟩ := Form.exists_toAtom_of_toExpr (by simp) h
    rfl

/-- The source context of an expression of a text is the position at which it begins. -/
theorem StandsAt.source_eq (h : StandsAt file source t e) :
    e.source = some (.str (Position.behind file (source.take t.offset)).text) := by
  obtain ⟨form, hoccurs, hform⟩ := h
  rw [source_of_toExpr hform, hoccurs.pos_eq]

theorem ParsedFrom.exists_standsAt (h : ParsedFrom file source e) :
    ∃ t, StandsAt file source t e := by
  rcases h with h | h
  · obtain ⟨form, reader, hread, hform⟩ := exists_form_of_parse h
    obtain ⟨t, hoccurs⟩ := Form.exists_occurs_readForm hread
    exact ⟨t, form, hoccurs, hform⟩
  · obtain ⟨form, hmem, hform⟩ := exists_form_of_parseForms h
    obtain ⟨t, hoccurs⟩ := Form.exists_occurs_readAll hmem
    exact ⟨t, form, hoccurs, hform⟩

/-- The elements of a list stand in the text where the list does. -/
theorem StandsAt.exists_elem {s : Source} {es : List Expr} (h : StandsAt file source t (.list s es))
    (he : e ∈ es) : ∃ t', StandsAt file source t' e := by
  obtain ⟨form, hoccurs, hform⟩ := h
  cases form with
  | list pos items =>
    obtain ⟨es', hes, heq⟩ := map_ok_iff.1 hform
    cases heq
    obtain ⟨item, hitem, hof⟩ := exists_mem_of_forall₂ (toExprs_ok hes) e he
    obtain ⟨t', hoccurs'⟩ := hoccurs.exists_item hitem
    exact ⟨t', item, hoccurs', hof⟩
  | _ =>
    obtain ⟨a, -, heq⟩ := Form.exists_toAtom_of_toExpr (by simp) hform
    cases heq

end Expr

end Formulary
