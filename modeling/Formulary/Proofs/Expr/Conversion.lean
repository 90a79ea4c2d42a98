import Formulary.Proofs.Expr.Failure
import Formulary.Proofs.Symbol

/-!
# Forms and their expressions

A form becomes an expression of the same shape, leaf by leaf, if every leaf denotes an atom. If
not, the first leaf in the order of the text that denotes none is what the error is about, and the
message names the way to it: at every level the position and the index of the item that is gone
into. If that leaf is an integer with too many digits, the conversion fails without such a message.
-/
namespace Formulary

theorem ParseError.message_atForm {pos : Position} {index : Nat} {e : ParseError}
    (h : e.kind = .parsing) : (e.atForm pos index).message =
      pos.text ++ ": error parsing form[" ++ toString index ++ "]: " ++ e.message := by
  have hown : e.kind.isOwn = true := by rw [h]; rfl
  rw [atForm, if_pos hown]
  rfl

namespace Form

/-! ## Leaves -/

/-- A form that is no list, and the way to it from a form around it: the position and the index
of the item at every level. -/
structure Leaf where
  way : List (Position × Nat)
  form : Form

/-- The leaf as seen from one level further out. -/
def Leaf.under (pos : Position) (index : Nat) (l : Leaf) : Leaf :=
  { l with way := (pos, index) :: l.way }

mutual

/-- The leaves of a form in the order of the text. -/
def leaves : Form → List Leaf
  | .list _ items => leavesAll 0 items
  | form => [⟨[], form⟩]

def leavesAll (index : Nat) : List Form → List Leaf
  | [] => []
  | form :: forms => (leaves form).map (.under form.pos index) ++ leavesAll (index + 1) forms

end

/-- The literal of a whole number is made of digits behind an optional sign, and that of any other
number, unless it is of neither kind, is a numeral. -/
def Literate : Form → Prop
  | .number _ literal .whole => Numeral.IsInteger literal
  | .number _ literal .real => ∃ d, Numeral.Denotes literal d
  | _ => True

/-- The leaves that denote an atom: strings, symbols unless their literals begin with two colons,
whole numbers of 64 bits and not too many digits, and the numbers that are not whole. -/
def HasAtom : Form → Prop
  | .string _ _ => True
  | .symbol _ literal => ¬ [':', ':'] <+: literal
  | .number _ literal .whole => ∃ n ∈ Numeral.int? literal, -2 ^ 63 ≤ n ∧ n < 2 ^ 63
  | .number _ _ .real => True
  | _ => False

/-- A whole number with more digits than the limit allows. -/
def IsLong : Form → Prop
  | .number _ literal .whole => Numeral.IsLong literal
  | _ => False

/-- What is wrong with a leaf that denotes no atom. -/
def complaint : Form → String
  | .symbol _ literal =>
    "invalid symbol begins with two colons: " ++ String.ofList (Text.quoted literal)
  | .number _ literal .whole => "integer constant " ++ String.ofList literal ++ " overflows int64"
  | .number _ literal _ => "unsupported number value: " ++ String.ofList literal
  | form =>
    "unsupported form Form(position=SourcePosition(filename=" ++
      String.ofList (Text.quoted form.pos.file.toList) ++ ", line=" ++ toString form.pos.line ++
      ", column=" ++ toString form.pos.column ++ "))"

/-- The complaint about a leaf behind the way to it. -/
def Leaf.message (l : Leaf) : String :=
  l.way.foldr (fun (pos, index) rest =>
    pos.text ++ ": error parsing form[" ++ toString index ++ "]: " ++ rest) l.form.complaint

/-- The error is the one with which the leaf is refused. -/
def Leaf.Refuses (l : Leaf) (e : ParseError) : Prop :=
  (l.form.IsLong ∧ e.kind = .value) ∨
    (¬ l.form.IsLong ∧ e.kind = .parsing ∧ e.message = l.message)

/-- The atom that a leaf denotes. -/
inductive Denotes : Form → Atom → Prop
  | string (pos : Position) (value : List Char) :
      Denotes (.string pos value) (.string (String.ofList value))
  | whole (pos : Position) {literal : List Char} {n : Int} (h : Numeral.int? literal = some n) :
      Denotes (.number pos literal .whole) (.int .int64 n)
  | real (pos : Position) {literal : List Char} {d : Decimal} (h : Numeral.Denotes literal d) :
      Denotes (.number pos literal .real) (.double (.ofDecimal .double d))
  | symbol (pos : Position) {literal : List Char} {s : Symbol} (h : Symbol.Divides literal s) :
      Denotes (.symbol pos literal) (.symbol s)

/-- The expression has the shape of the form, the atom of each leaf in its place, and the position
of the form as source context at every node. -/
inductive Converts : Form → Expr → Prop
  | leaf {form : Form} {a : Atom} (h : Denotes form a) :
      Converts form (.atom (some (.str form.pos.text)) a)
  | list (pos : Position) {items : List Form} {es : List Expr}
      (h : List.Forall₂ Converts items es) :
      Converts (.list pos items) (.list (some (.str pos.text)) es)

/-- How a conversion ends: with a result of which something holds if every leaf has an atom, and
otherwise with the error of the first leaf that has none. -/
inductive Settles {α : Type} (holds : α → Prop) (ls : List Leaf) : Except ParseError α → Prop
  | converted {a : α} (h : holds a) (hls : ∀ l ∈ ls, l.form.HasAtom) : Settles holds ls (.ok a)
  | refused {before after : List Leaf} {l : Leaf} {e : ParseError} (hls : ls = before ++ l :: after)
      (hbefore : ∀ b ∈ before, b.form.HasAtom) (hl : ¬ l.form.HasAtom) (he : l.Refuses e) :
      Settles holds ls (.error e)

/-! ## One leaf -/

theorem contains_iff {n : Int} : IntKind.int64.contains n = true ↔ -2 ^ 63 ≤ n ∧ n < 2 ^ 63 := by
  have hmin : IntKind.int64.min = -2 ^ 63 := rfl
  have hmax : IntKind.int64.max = 2 ^ 63 - 1 := rfl
  rw [IntKind.contains, hmin, hmax, Bool.and_eq_true, decide_eq_true_eq, decide_eq_true_eq]
  omega

variable {form : Form}

theorem leaves_of_ne_list (h : ∀ pos items, form ≠ .list pos items) :
    form.leaves = [⟨[], form⟩] := by
  cases form with
  | list pos items => exact absurd rfl (h pos items)
  | _ => simp only [leaves]

theorem toExpr_of_ne_list (h : ∀ pos items, form ≠ .list pos items) :
    form.toExpr = form.toAtom.map (.atom form.source) := by
  cases form with
  | list pos items => exact absurd rfl (h pos items)
  | _ => simp only [toExpr]

theorem settles_of_denotes {a : Atom} (hform : form.HasAtom) (h : Denotes form a) :
    Settles (Converts form) [⟨[], form⟩] (.ok (.atom form.source a)) :=
  .converted (.leaf h) (by simpa using hform)

theorem settles_of_refuses {e : ParseError} (hform : ¬ form.HasAtom)
    (he : (Leaf.mk [] form).Refuses e) : Settles (Converts form) [⟨[], form⟩] (.error e) := by
  have hfirst : [Leaf.mk [] form] = [] ++ Leaf.mk [] form :: [] := rfl
  exact .refused hfirst (by simp) hform he

theorem settles_of_complaint {e : ParseError} (hform : ¬ form.HasAtom) (hlong : ¬ form.IsLong)
    (hkind : e.kind = .parsing) (hmessage : e.message = form.complaint) :
    Settles (Converts form) [⟨[], form⟩] (.error e) :=
  settles_of_refuses hform (.inr ⟨hlong, hkind, hmessage⟩)

theorem settles_whole (pos : Position) {literal : List Char} (h : Numeral.IsInteger literal) :
    Settles (Converts (.number pos literal .whole)) [⟨[], .number pos literal .whole⟩]
      ((Form.number pos literal .whole).toAtom.map
        (.atom (Form.number pos literal .whole).source)) := by
  simp only [toAtom, h.intLiteral?_eq]
  cases hn : Numeral.int? literal with
  | none =>
    refine settles_of_refuses ?_ (.inl ⟨h.int?_eq_none_iff.1 hn, rfl⟩)
    rintro ⟨m, hm, -⟩
    cases hn.symm.trans hm
  | some n =>
    have hlong : ¬ Numeral.IsLong literal := by
      rw [← h.int?_eq_none_iff, hn]
      exact Option.some_ne_none n
    dsimp only
    split
    next hrange => exact settles_of_denotes ⟨n, hn, contains_iff.1 hrange⟩ (.whole pos hn)
    next hrange =>
      refine settles_of_complaint ?_ hlong rfl rfl
      rintro ⟨m, hm, hm'⟩
      cases hn.symm.trans hm
      exact hrange (contains_iff.2 hm')

theorem settles_leaf (hleaf : ∀ pos items, form ≠ .list pos items) (hform : form.Literate) :
    Settles (Converts form) form.leaves form.toExpr := by
  rw [leaves_of_ne_list hleaf, toExpr_of_ne_list hleaf]
  cases form with
  | string pos value => exact settles_of_denotes trivial (.string pos value)
  | number pos literal kind =>
    cases kind with
    | whole => exact settles_whole pos hform
    | real =>
      obtain ⟨d, hd⟩ := hform
      simp only [toAtom, hd.floatLiteral?_eq]
      exact settles_of_denotes trivial (.real pos hd)
    | other => exact settles_of_complaint id id rfl rfl
  | symbol pos literal =>
    simp only [toAtom]
    cases hs : Symbol.parse? literal with
    | none =>
      have hcolons := Symbol.parse?_eq_none_iff.1 hs
      exact settles_of_complaint (not_not.2 hcolons) id rfl rfl
    | some s =>
      have hdivides := Symbol.parse?_eq_some_iff.1 hs
      refine settles_of_denotes ?_ (.symbol pos hdivides)
      intro hcolons
      cases (Symbol.parse?_eq_none_iff.2 hcolons).symm.trans hs
  | list pos items => exact absurd rfl (hleaf pos items)
  | bare pos => exact settles_of_complaint id id rfl rfl

/-! ## Lists -/

theorem Leaf.message_under (pos : Position) (index : Nat) (l : Leaf) :
    (l.under pos index).message =
      pos.text ++ ": error parsing form[" ++ toString index ++ "]: " ++ l.message := rfl

/-- A list passes the error of an item on, and places it if it has a message. -/
theorem Leaf.Refuses.atForm {l : Leaf} {e : ParseError} (h : l.Refuses e) (pos : Position)
    (index : Nat) : (l.under pos index).Refuses (e.atForm pos index) := by
  rcases h with ⟨hlong, hkind⟩ | ⟨hlong, hkind, hmessage⟩
  · exact .inl ⟨hlong, (ParseError.kind_atForm pos index e).trans hkind⟩
  · refine .inr ⟨hlong, (ParseError.kind_atForm pos index e).trans hkind, ?_⟩
    rw [ParseError.message_atForm hkind, Leaf.message_under, hmessage]

/-- A list is converted item by item, up to the first that fails. -/
theorem settles_toExprs {forms : List Form}
    (hforms : ∀ form ∈ forms, Settles (Converts form) form.leaves form.toExpr) (index : Nat) :
    Settles (List.Forall₂ Converts forms) (leavesAll index forms) (toExprs index forms) := by
  induction forms generalizing index with
  | nil =>
    rw [leavesAll, toExprs]
    exact .converted .nil (by simp)
  | cons form forms ih =>
    obtain ⟨hform, hforms⟩ := List.forall_mem_cons.1 hforms
    rw [leavesAll, toExprs]
    generalize form.toExpr = r at hform
    cases hform with
    | @refused before after l e hls hbefore hl he =>
      have hsplit : form.leaves.map (Leaf.under form.pos index) ++ leavesAll (index + 1) forms =
          before.map (Leaf.under form.pos index) ++ l.under form.pos index ::
            (after.map (Leaf.under form.pos index) ++ leavesAll (index + 1) forms) := by
        rw [hls, List.map_append, List.map_cons, List.append_assoc, List.cons_append]
      refine .refused hsplit ?_ hl (he.atForm form.pos index)
      simpa [Leaf.under] using hbefore
    | @converted e he hls =>
      have hfirst : ∀ l ∈ form.leaves.map (Leaf.under form.pos index), l.form.HasAtom := by
        simpa [Leaf.under] using hls
      have hrest := ih hforms (index + 1)
      dsimp only
      generalize toExprs (index + 1) forms = r at hrest
      cases hrest with
      | converted hes hls' =>
        exact .converted (.cons he hes) (List.forall_mem_append.2 ⟨hfirst, hls'⟩)
      | @refused before after l e hls' hbefore hl he =>
        have hsplit : form.leaves.map (Leaf.under form.pos index) ++ leavesAll (index + 1) forms =
            form.leaves.map (Leaf.under form.pos index) ++ before ++ l :: after := by
          rw [hls', List.append_assoc]
        exact .refused hsplit (List.forall_mem_append.2 ⟨hfirst, hbefore⟩) hl he

theorem mem_leavesAll {form : Form} {forms : List Form} (h : form ∈ forms) (index : Nat) :
    ∀ l ∈ form.leaves, ∃ l' ∈ leavesAll index forms, l'.form = l.form := by
  induction forms generalizing index with
  | nil => cases h
  | cons form' forms ih =>
    intro l hl
    rw [leavesAll]
    rcases List.mem_cons.1 h with rfl | h
    · exact ⟨_, List.mem_append_left _ (List.mem_map_of_mem hl), rfl⟩
    · obtain ⟨l', hl', heq⟩ := ih h (index + 1) l hl
      exact ⟨l', List.mem_append_right _ hl', heq⟩

theorem settles_toExpr (hform : ∀ l ∈ form.leaves, l.form.Literate) :
    Settles (Converts form) form.leaves form.toExpr := by
  induction form with
  | list pos items ih =>
    have hitems : ∀ item ∈ items, Settles (Converts item) item.leaves item.toExpr := by
      intro item hitem
      apply ih item hitem
      intro l hl
      obtain ⟨l', hl', heq⟩ := mem_leavesAll hitem 0 l hl
      rw [← heq]
      exact hform l' (by rwa [leaves])
    have hall := settles_toExprs hitems 0
    rw [leaves, toExpr]
    generalize toExprs 0 items = r at hall
    cases hall with
    | converted hes hls => exact .converted (.list pos hes) hls
    | refused hls hbefore hl he => exact .refused hls hbefore hl he
  | _ =>
    refine settles_leaf (by simp) ?_
    simpa [leaves] using hform

/-- A form whose literals are written as they should be becomes an expression if and only if every
leaf has an atom. The expression then has the shape of the form, the atom of each leaf in its place
and the position of the form at every node. Otherwise the message is that about the first leaf
without an atom, behind the positions and indices of the items that lead to it, unless that leaf is
an integer with too many digits. -/
theorem toExpr_converts (form : Form) (hform : ∀ l ∈ form.leaves, l.form.Literate) :
    ((∃ e, form.toExpr = .ok e) ↔ ∀ l ∈ form.leaves, l.form.HasAtom) ∧
      (∀ e, form.toExpr = .ok e → Converts form e) ∧
      ((¬ ∀ l ∈ form.leaves, l.form.HasAtom) → ∃ before l after e,
        form.leaves = before ++ l :: after ∧ (∀ b ∈ before, b.form.HasAtom) ∧ ¬ l.form.HasAtom ∧
          form.toExpr = .error e ∧ ((l.form.IsLong ∧ e.kind = .value) ∨
            (¬ l.form.IsLong ∧ e.kind = .parsing ∧ e.message = l.message))) := by
  have hsettles := settles_toExpr hform
  generalize form.toExpr = r at hsettles
  cases hsettles with
  | converted h hls =>
    refine ⟨⟨fun _ => hls, fun _ => ⟨_, rfl⟩⟩, ?_, fun hno => absurd hls hno⟩
    rintro e ⟨⟩
    exact h
  | @refused before after l e hls hbefore hl he =>
    have hno : ¬ ∀ l ∈ form.leaves, l.form.HasAtom := by
      intro hall
      exact hl (hall l (by simp [hls]))
    exact ⟨⟨nofun, fun hall => absurd hall hno⟩, nofun,
      fun _ => ⟨before, l, after, e, hls, hbefore, hl, rfl, he⟩⟩

/-- The leaf that is refused stands in the second item, behind two numbers, and in front of a form
that would be refused as well. -/
theorem toExpr_converts_nested :
    let form : Form := .list ⟨"a.f", 1, 1⟩ [.symbol ⟨"a.f", 1, 2⟩ ['f'],
      .list ⟨"a.f", 2, 1⟩ [.number ⟨"a.f", 2, 2⟩ "-12".toList .whole,
        .number ⟨"a.f", 2, 6⟩ "1.5e3\n".toList .real, .symbol ⟨"a.f", 3, 1⟩ "::b".toList],
      .bare ⟨"a.f", 4, 1⟩]
    (∀ l ∈ form.leaves, l.form.Literate) ∧ ∃ e, form.toExpr = .error e ∧
      e.message = "a.f:2:1: error parsing form[1]: a.f:3:1: error parsing form[2]: invalid symbol begins with two colons: '::b'" ∧
      ∃ before l after, form.leaves = before ++ l :: after ∧ (∀ b ∈ before, b.form.HasAtom) ∧
        ¬ l.form.HasAtom ∧ e.message = l.message := by
  intro form
  have hwhole : Numeral.IsInteger "-12".toList := ⟨by decide, by decide⟩
  have hreal : ∃ d, Numeral.Denotes "1.5e3\n".toList d :=
    ⟨⟨false, 15, 2⟩, .inr ⟨"1.5e3".toList, by decide, by decide⟩⟩
  have hform : ∀ l ∈ form.leaves, l.form.Literate := by
    simp only [form, leaves, leavesAll, List.map_cons, List.map_nil, List.cons_append,
      List.nil_append, List.forall_mem_cons, Leaf.under, Literate, hwhole, hreal]
    simp
  let e : ParseError :=
    .inForm ⟨"a.f", 2, 1⟩ 1 (.inForm ⟨"a.f", 3, 1⟩ 2 (.badSymbol "::b".toList))
  have herror : form.toExpr = .error e := by
    have hrun : form.toExpr.map (fun _ => ()) = .error e := by decide +kernel
    exact map_error_iff.1 hrun
  obtain ⟨hsucceeds, -, hfails⟩ := toExpr_converts form hform
  have hno : ¬ ∀ l ∈ form.leaves, l.form.HasAtom := by
    intro hall
    obtain ⟨x, hx⟩ := hsucceeds.2 hall
    cases herror.symm.trans hx
  obtain ⟨before, l, after, e', hls, hbefore, hl, herror', hlong | hshort⟩ := hfails hno
  · cases herror.symm.trans herror'
    cases hlong.2
  · cases herror.symm.trans herror'
    exact ⟨hform, e, herror, by decide +kernel, before, l, after, hls, hbefore, hl, hshort.2.2⟩

/-- An integer with too many digits is out of range, and the conversion does not fail with an error
of the parser there. -/
theorem not_toExpr_converts :
    ¬ ∀ form : Form, (∀ l ∈ form.leaves, l.form.Literate) →
      (¬ ∀ l ∈ form.leaves, l.form.HasAtom) →
        ∃ before l after e, form.leaves = before ++ l :: after ∧
          (∀ b ∈ before, b.form.HasAtom) ∧ ¬ l.form.HasAtom ∧ form.toExpr = .error e ∧
            e.kind = .parsing ∧ e.message = l.message := by
  intro h
  obtain ⟨literal, hlong⟩ : ∃ literal, Numeral.IsLong literal :=
    ⟨List.replicate 4301 '1', Numeral.isLong_replicate (by omega)⟩
  have hnone := hlong.1.int?_eq_none_iff.2 hlong
  let form : Form := .number ⟨"", 1, 1⟩ literal .whole
  have hatom : ¬ form.HasAtom := by
    rintro ⟨n, hn, -⟩
    cases hnone.symm.trans hn
  have hliterate : form.Literate := hlong.1
  have herror : form.toExpr = .error .notNumber := by
    simp only [form, toExpr, toAtom, hlong.1.intLiteral?_eq, hnone]
    rfl
  obtain ⟨-, -, -, e, -, -, -, he, hkind, -⟩ := h form
    (by simpa only [form, leaves, List.forall_mem_singleton] using hliterate)
    (by simpa only [form, leaves, List.forall_mem_singleton] using hatom)
  cases herror.symm.trans he
  cases hkind

end Form

end Formulary
