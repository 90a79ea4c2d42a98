import Formulary.Proofs.Expr.Placement
import Formulary.Proofs.Form.Order
import Formulary.Proofs.Form.Reader

/-!
# Where the parts of a program stand in a text

The forms of a text, the expressions that they become and the nodes that these are compiled to are
listed in pre-order. Forms and expressions go together one by one, and the nodes with some of them,
as no node stands for the operator of a conditional. A node has the source context of its
expression, and this is the position of the form, which counts the lines and columns in front of
its first character.
-/
namespace Formulary

namespace Expr

mutual

/-- The expression and all expressions inside it, in pre-order. -/
def preorder : Expr → List Expr
  | .list source es => .list source es :: preorderAll es
  | .atom source a => [.atom source a]

def preorderAll : List Expr → List Expr
  | [] => []
  | e :: es => preorder e ++ preorderAll es

end

end Expr

namespace Node

mutual

/-- The node and all nodes below it, in pre-order. -/
def preorder : Node → List Node
  | .call s f as => .call s f as :: (preorder f ++ preorderAll as)
  | .ifThen s t a => .ifThen s t a :: (preorder t ++ preorder a)
  | .ifThenElse s t a b => .ifThenElse s t a b :: (preorder t ++ (preorder a ++ preorder b))
  | n => [n]

def preorderAll : List Node → List Node
  | [] => []
  | n :: ns => preorder n ++ preorderAll ns

end

end Node

/-! ## From forms to expressions -/

namespace Form

variable {form : Form} {e : Expr}

theorem forall₂_preorderAll {forms : List Form} {es : List Expr} {r : Form → Expr → Prop}
    (hforms : ∀ form ∈ forms, ∀ e, form.toExpr = .ok e → List.Forall₂ r form.preorder e.preorder)
    (h : List.Forall₂ (fun form e => form.toExpr = .ok e) forms es) :
    List.Forall₂ r (preorderAll forms) (Expr.preorderAll es) := by
  induction h with
  | nil => exact .nil
  | cons he _ ih =>
    obtain ⟨hform, hforms⟩ := List.forall_mem_cons.1 hforms
    exact List.rel_append (hform _ he) (ih hforms)

theorem forall₂_atom (hform : ∀ pos items, form ≠ .list pos items) (h : form.toExpr = .ok e) :
    List.Forall₂ (fun form e => form.toExpr = .ok e) [form] e.preorder := by
  obtain ⟨a, -, rfl⟩ := exists_toAtom_of_toExpr hform h
  exact .cons h .nil

theorem preorder_of_toExpr (h : form.toExpr = .ok e) :
    List.Forall₂ (fun form e => form.toExpr = .ok e) form.preorder e.preorder := by
  induction form generalizing e with
  | list pos items ih =>
    obtain ⟨es, hes, rfl⟩ := map_ok_iff.1 h
    exact .cons h (forall₂_preorderAll (fun item hitem _ => ih item hitem) (Expr.toExprs_ok hes))
  | string pos value => exact forall₂_atom (by simp) h
  | number pos literal kind => exact forall₂_atom (by simp) h
  | symbol pos literal => exact forall₂_atom (by simp) h
  | bare pos => exact forall₂_atom (by simp) h

end Form

/-! ## From expressions to nodes -/

namespace Expr

variable {e : Expr} {n : Node}

/-- The nodes are compiled from some of the expressions, in the same order. -/
def Compiled (es : List Expr) (ns : List Node) : Prop :=
  ∃ sub, sub.Sublist es ∧ List.Forall₂ (fun e n => e.compile .standard = .ok n) sub ns

theorem Compiled.append {es es' : List Expr} {ns ns' : List Node} (h : Compiled es ns)
    (h' : Compiled es' ns') : Compiled (es ++ es') (ns ++ ns') := by
  obtain ⟨sub, hsub, hns⟩ := h
  obtain ⟨sub', hsub', hns'⟩ := h'
  exact ⟨sub ++ sub', hsub.append hsub', List.rel_append hns hns'⟩

theorem Compiled.cons {es : List Expr} {ns : List Node} (hn : e.compile .standard = .ok n)
    (h : Compiled es ns) : Compiled (e :: es) (n :: ns) := by
  obtain ⟨sub, hsub, hns⟩ := h
  exact ⟨e :: sub, hsub.cons_cons e, .cons hn hns⟩

theorem Compiled.skip {es es' : List Expr} {ns : List Node} (h : Compiled es ns) :
    Compiled (es' ++ es) ns := by
  obtain ⟨sub, hsub, hns⟩ := h
  exact ⟨sub, hsub.trans (List.sublist_append_right es' es), hns⟩

theorem compiled_nil : Compiled [] [] := ⟨[], .slnil, .nil⟩

theorem compiled_preorderAll {es : List Expr} {ns : List Node}
    (hes : ∀ e ∈ es, ∀ n, e.compile .standard = .ok n → Compiled e.preorder n.preorder)
    (h : List.Forall₂ (fun e n => e.compile .standard = .ok n) es ns) :
    Compiled (preorderAll es) (Node.preorderAll ns) := by
  induction h with
  | nil => exact compiled_nil
  | cons hn _ ih =>
    obtain ⟨he, hes⟩ := List.forall_mem_cons.1 hes
    exact (he _ hn).append (ih hes)

theorem source_of_constant {source : Source} {a : Atom} (h : constant source a = .ok n) :
    n.source = source ∧ n.preorder = [n] := by
  unfold constant at h
  split at h
  · split_ifs at h
    cases h
    exact ⟨rfl, rfl⟩
  · cases h
    exact ⟨rfl, rfl⟩

theorem source_of_compile (h : e.compile .standard = .ok n) : n.source = e.source := by
  cases e with
  | atom source a =>
    obtain ⟨s, rfl, heq⟩ | ⟨-, heq⟩ := compile_atom .standard source a
    · cases heq.symm.trans h
      rfl
    · exact (source_of_constant (heq.symm.trans h)).1
  | list source es => cases compiledList_of_compile h <;> rfl

theorem compiled_preorder (h : e.compile .standard = .ok n) :
    Compiled e.preorder n.preorder := by
  induction e generalizing n with
  | atom source a =>
    have hpreorder : n.preorder = [n] := by
      obtain ⟨s, rfl, heq⟩ | ⟨-, heq⟩ := compile_atom .standard source a
      · cases heq.symm.trans h
        rfl
      · exact (source_of_constant (heq.symm.trans h)).2
    rw [hpreorder]
    exact compiled_nil.cons h
  | list source es ih =>
    cases compiledList_of_compile h with
    | @call head operator args ns hhead hif hargs =>
      have hrest := compiled_preorderAll (fun e he _ => ih e (List.mem_cons_of_mem head he)) hargs
      have hcompiled : Compiled head.preorder [.reference head.source operator] := by
        obtain ⟨s, rfl⟩ := eq_atom_of_symbol? hhead
        exact compiled_nil.cons (compile_symbol _ _ _)
      exact (hcompiled.append hrest).cons h
    | @ifThen head test consequent operator t c hif _ ht hc =>
      have hclauses := (ih test (by simp) ht).append (ih consequent (by simp) hc)
      rw [preorder, preorderAll, preorderAll, preorderAll, preorderAll, List.append_nil]
      exact hclauses.skip.cons h
    | @ifThenElse head test consequent alternative operator t c a hif _ ht hc ha =>
      have hclauses := (ih test (by simp) ht).append
        ((ih consequent (by simp) hc).append (ih alternative (by simp) ha))
      rw [preorder, preorderAll, preorderAll, preorderAll, preorderAll, preorderAll,
        List.append_nil]
      exact hclauses.skip.cons h

end Expr

/-! ## The whole way -/

theorem exists_sublist_comp {α β γ : Type} {r : α → β → Prop} {r' : β → γ → Prop} {as : List α}
    {bs sub : List β} {cs : List γ} (h : List.Forall₂ r as bs) (hsub : sub.Sublist bs)
    (h' : List.Forall₂ r' sub cs) :
    ∃ sub', sub'.Sublist as ∧ List.Forall₂ (fun a c => ∃ b, r a b ∧ r' b c) sub' cs := by
  induction hsub generalizing as cs with
  | slnil =>
    cases h'
    exact ⟨[], List.nil_sublist as, .nil⟩
  | cons b _ ih =>
    cases h with
    | cons _ h =>
      obtain ⟨sub', hsub', hr⟩ := ih h h'
      exact ⟨sub', hsub'.cons _, hr⟩
  | cons_cons b _ ih =>
    cases h with
    | cons hab h =>
      cases h' with
      | cons hbc h' =>
        obtain ⟨sub', hsub', hr⟩ := ih h h'
        exact ⟨_ :: sub', hsub'.cons_cons _, .cons ⟨b, hab, hbc⟩ hr⟩

theorem Expr.ParsedFrom.exists_form {file : String} {source : List Char} {e : Expr}
    (h : ParsedFrom file source e) :
    ∃ form ∈ (Form.readAll file source).1, form.toExpr = .ok e := by
  rcases h with h | h
  · obtain ⟨form, r, hread, hform⟩ := exists_form_of_parse h
    exact ⟨form, Reader.mem_of_readForm hread, hform⟩
  · exact exists_form_of_parseForms h

namespace Form

/-- The position of a form is that of its first character, and the positions of the forms of a
text increase in pre-order. Each expression of the text goes with a form, part by part, and has
the text of its position as source context; each node of its program goes with one of these parts
and has the same. -/
theorem readAll_placed (file : String) (source : List Char) (forms : List Form)
    (h : readAll file source = (forms, none)) :
    List.Forall₂ (fun t form => Occurs file source t form ∧ Token.Lexeme t.kind t.text ∧
        t.text <+: source.drop t.offset ∧ form.pos = .behind file (source.take t.offset))
      (starts (lex source).tokens) (preorderAll forms) ∧
    ((preorderAll forms).map pos).Pairwise Position.Before ∧
    ((preorderAll forms).map pos).Nodup ∧
    ∀ e, Expr.ParsedFrom file source e → ∃ form ∈ forms, form.toExpr = .ok e ∧
      List.Forall₂ (fun part x => part.toExpr = .ok x ∧ x.source = some (.str part.pos.text))
        form.preorder e.preorder ∧
      ∀ n, e.compile .standard = .ok n → ∃ parts, parts.Sublist form.preorder ∧
        List.Forall₂ (fun part m => (∃ x, part.toExpr = .ok x ∧ x.compile .standard = .ok m) ∧
          m.source = some (.str part.pos.text)) parts n.preorder := by
  have hbefore := before_readAll h
  refine ⟨?_, hbefore, hbefore.imp Position.Before.ne, ?_⟩
  · refine (occurs_readAll h).imp fun t form hocc => ?_
    obtain ⟨hlex, htext⟩ := Token.lexeme_of_mem_lex t hocc.mem
    exact ⟨hocc, hlex, htext, hocc.pos_eq⟩
  · intro e he
    obtain ⟨form, hmem, hform⟩ := he.exists_form
    rw [h] at hmem
    have hparts := preorder_of_toExpr hform
    refine ⟨form, hmem, hform, hparts.imp fun part x hx => ⟨hx, Expr.source_of_toExpr hx⟩, ?_⟩
    intro n hn
    obtain ⟨es, hes, hnodes⟩ := Expr.compiled_preorder hn
    obtain ⟨parts, hsub, hnodes⟩ := exists_sublist_comp hparts hes hnodes
    refine ⟨parts, hsub, hnodes.imp ?_⟩
    rintro part m ⟨x, hx, hm⟩
    exact ⟨⟨x, hx, hm⟩, (Expr.source_of_compile hm).trans (Expr.source_of_toExpr hx)⟩

/-- The comments, the string of two lines and the conditional are passed over: the six nodes have
the positions of six of the seven forms. -/
theorem readAll_placed_lines :
    let source := "; (a\n(if \"x\ny\" /* (\n*/ (+ 1 z))".toList
    let forms := (readAll "a.f" source).1
    readAll "a.f" source = (forms, none) ∧
      (preorderAll forms).map pos = [⟨"a.f", 2, 1⟩, ⟨"a.f", 2, 2⟩, ⟨"a.f", 2, 5⟩, ⟨"a.f", 4, 4⟩,
        ⟨"a.f", 4, 5⟩, ⟨"a.f", 4, 7⟩, ⟨"a.f", 4, 9⟩] ∧
      ((preorderAll forms).map pos).Pairwise Position.Before ∧
      ∃ e n, Expr.parse "a.f" source = .ok e ∧ e.compile .standard = .ok n ∧
        n.preorder.length = 6 ∧ ∃ form ∈ forms, ∃ parts, parts.Sublist form.preorder ∧
          List.Forall₂ (fun part m => m.source = some (.str part.pos.text)) parts n.preorder := by
  intro source forms
  have hread : readAll "a.f" source = (forms, none) := Prod.ext rfl (by decide +kernel)
  have hrun : ((Expr.parse "a.f" source).mapError fun _ => ()) >>= (fun e =>
      ((e.compile .standard).map (·.preorder.length)).mapError fun _ => ()) = .ok 6 := by
    decide +kernel
  obtain ⟨e, he, hrun⟩ := bind_ok_iff.1 hrun
  rw [mapError_ok_iff] at he hrun
  obtain ⟨n, hn, hlength⟩ := map_ok_iff.1 hrun
  obtain ⟨-, hbefore, -, hparsed⟩ := readAll_placed "a.f" source forms hread
  obtain ⟨form, hmem, -, -, hnodes⟩ := hparsed e (.inl he)
  obtain ⟨parts, hsub, hparts⟩ := hnodes n hn
  exact ⟨hread, by decide +kernel, hbefore, e, n, he, hn, hlength, form, hmem, parts, hsub,
    hparts.imp fun _ _ h => h.2⟩

end Form

end Formulary
