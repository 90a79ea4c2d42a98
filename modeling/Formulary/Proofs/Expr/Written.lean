import Formulary.Expr.Parser
import Formulary.Proofs.Expr.Basic
import Formulary.Proofs.Form.Readable

/-!
# What a text can hold

The symbols of a form that was read stand in the text as words that are no numerals, and so the
expression of a text has only atoms that a text can denote.
-/
namespace Formulary

open Token (IsWord)

/-- The atoms that a text can denote. -/
def Atom.Written : Atom → Prop
  | .int kind n => kind = .int64 ∧ IntKind.int64.contains n = true
  | .double _ | .string _ => True
  | .symbol s => ∃ literal, IsWord literal ∧ Numeral.isNumeral literal = false ∧
      Symbol.parse? literal = some s
  | _ => False

namespace Form

mutual

/-- Every symbol of the form is written as a word that is no numeral. -/
def Worded : Form → Prop
  | .symbol _ literal => IsWord literal ∧ Numeral.isNumeral literal = false
  | .list _ items => WordedAll items
  | _ => True

def WordedAll : List Form → Prop
  | [] => True
  | form :: forms => Worded form ∧ WordedAll forms

end

theorem wordedAll_iff {forms : List Form} : WordedAll forms ↔ ∀ form ∈ forms, form.Worded := by
  induction forms with
  | nil => simp [WordedAll]
  | cons form forms ih => rw [WordedAll, ih, List.forall_mem_cons]

/-! ## Reading -/

theorem worded_ofWord {text : List Char} (h : IsWord text) (pos : Position) :
    (ofWord pos text).Worded := by
  unfold ofWord
  split
  · trivial
  next hn => exact ⟨h, Bool.eq_false_iff.2 hn⟩

theorem worded_of_readable {form : Form} (h : Readable form) : form.Worded := by
  induction h with
  | string => trivial
  | word pos hw => exact worded_ofWord hw pos
  | list pos _ ih => rwa [Worded, wordedAll_iff]

theorem worded_readForm {file : String} {source : List Char} {form : Form} {reader : Reader}
    (h : (Reader.ofSource file source).readForm = (.ok (some form), reader)) : form.Worded :=
  worded_of_readable (readable_readForm h)

/-! ## Denoting -/

theorem written_toAtom {form : Form} {a : Atom} (hform : form.Worded) (h : form.toAtom = .ok a) :
    a.Written := by
  unfold toAtom at h
  split at h
  · cases h
    trivial
  · split at h
    · cases h
    · split_ifs at h with hn
      cases h
      exact ⟨rfl, hn⟩
  · split at h
    · cases h
    · cases h
      trivial
  · cases h
  · split at h
    · cases h
    next literal _ s hs =>
      cases h
      exact ⟨literal, hform.1, hform.2, hs⟩
  · cases h
  · cases h

theorem exists_toAtom_of_toExpr {form : Form} {e : Expr}
    (hleaf : ∀ pos items, form ≠ .list pos items) (h : form.toExpr = .ok e) :
    ∃ a, form.toAtom = .ok a ∧ e = .atom form.source a := by
  have hmap : form.toAtom.map (.atom form.source) = .ok e := by
    cases form with
    | list pos items => exact absurd rfl (hleaf pos items)
    | _ => simpa only [toExpr] using h
  cases ha : form.toAtom with
  | error cause =>
    rw [ha] at hmap
    cases hmap
  | ok a =>
    rw [ha] at hmap
    cases hmap
    exact ⟨a, rfl, rfl⟩

mutual

theorem written_toExpr {e : Expr} : (form : Form) → form.Worded → form.toExpr = .ok e →
    e.Leaves Atom.Written
  | .list pos items, hform, h => by
    rw [toExpr] at h
    cases hes : toExprs 0 items with
    | error cause =>
      rw [hes] at h
      cases h
    | ok es =>
      rw [hes] at h
      cases h
      exact Expr.leaves_list.2 (written_toExprs items hform hes)
  | .string _ _, hform, h | .number _ _ _, hform, h | .symbol _ _, hform, h
  | .bare _, hform, h => by
    obtain ⟨a, ha, rfl⟩ := exists_toAtom_of_toExpr (by simp) h
    exact Expr.leaves_atom.2 (written_toAtom hform ha)

theorem written_toExprs {index : Nat} {es : List Expr} : (forms : List Form) → WordedAll forms →
    toExprs index forms = .ok es → ∀ e ∈ es, e.Leaves Atom.Written
  | [], _, h => by
    cases h
    simp
  | form :: forms, hforms, h => by
    rw [toExprs] at h
    cases he : toExpr form with
    | error cause =>
      rw [he] at h
      cases h
    | ok e =>
      rw [he] at h
      cases hes : toExprs (index + 1) forms with
      | error cause =>
        simp only [hes, Except.map] at h
        cases h
      | ok rest =>
        simp only [hes, Except.map] at h
        cases h
        exact List.forall_mem_cons.2
          ⟨written_toExpr form hforms.1 he, written_toExprs forms hforms.2 hes⟩

end

end Form

/-- Every atom of the expression that a text holds is one that a text can denote. -/
theorem Expr.written_of_parse {file : String} {source : List Char} {e : Expr}
    (h : parse file source = .ok e) : e.Leaves Atom.Written := by
  unfold parse at h
  split at h
  · cases h
  · cases h
  next form reader hread =>
    split at h
    · cases h
    · cases h
    · exact Form.written_toExpr form (Form.worded_readForm hread) h

end Formulary
