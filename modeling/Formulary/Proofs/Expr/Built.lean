import Formulary.Expr.Construct
import Formulary.Expr.Parser
import Formulary.Expr.Sequence
import Formulary.Proofs.Expr.Grammar
import Formulary.Proofs.Expr.Written
import Formulary.Proofs.Program.Basic
import Formulary.Proofs.Program.Conditional

/-!
# The expressions that can be built

Expressions are made of native values, texts, forms and messages, taken out of lists, and held by
compiled programs. In all of them every node holds a value that belongs to its kind: each way of
building checks the integers that it does not get from expressions, and keeps the expressions that
it is given.
-/
namespace Formulary

/-- The values that belong to a kind. -/
def Kind.Owns : Kind → Native → Prop
  | .bool, v => ∃ b, v = .bool b
  | .int k, v => ∃ n, v = .int n ∧ k.Holds n
  | .single, v => ∃ x, v = .single x
  | .double, v => ∃ x, v = .double x
  | .bytes, v => ∃ bs, v = .bytes bs
  | .string, v => ∃ s, v = .str s
  | .symbol, v => ∃ s, v = .symbol s
  | .list, v => ∃ es, v = .exprs es

theorem Atom.owns_native {a : Atom} (h : a.WellFormed) : a.kind.Owns a.native := by
  cases a with
  | int k n => exact ⟨n, rfl, IntKind.contains_iff_holds.1 h⟩
  | _ => exact ⟨_, rfl⟩

/-- The atoms of texts. -/
def Atom.Textual : Atom → Prop
  | .int k n => k = .int64 ∧ k.contains n = true
  | .double _ | .string _ | .symbol _ => True
  | _ => False

theorem Atom.Textual.wellFormed {a : Atom} (h : a.Textual) : a.WellFormed := by
  cases a with
  | int k n => exact h.2
  | _ => trivial

/-- The atoms of the constants of compiled programs. -/
def Atom.Compiled : Atom → Prop
  | .int k n => k = .int64 ∧ k.contains n = true
  | _ => True

theorem Atom.Compiled.wellFormed {a : Atom} (h : a.Compiled) : a.WellFormed := by
  cases a with
  | int k n => exact h.2
  | _ => trivial

namespace Native

mutual

/-- The expressions that a value holds. -/
def held : Native → List Expr
  | .expr e => [e]
  | .exprs es => es
  | .list items | .tuple items => heldAll items
  | .mapping fields | .record _ fields => heldFields fields
  | _ => []

def heldAll : List Native → List Expr
  | [] => []
  | v :: vs => held v ++ heldAll vs

def heldFields : List (String × Native) → List Expr
  | [] => []
  | (_, v) :: fields => held v ++ heldFields fields

end

theorem heldAll_eq (vs : List Native) : heldAll vs = vs.flatMap held := by
  induction vs with
  | nil => rfl
  | cons v vs ih => rw [heldAll, ih, List.flatMap_cons]

end Native

namespace Expr

mutual

/-- The expression and every expression in it. -/
def nodes : Expr → List Expr
  | .atom source a => [.atom source a]
  | .list source es => .list source es :: nodesAll es

def nodesAll : List Expr → List Expr
  | [] => []
  | e :: es => nodes e ++ nodesAll es

end

theorem nodesAll_eq (es : List Expr) : nodesAll es = es.flatMap nodes := by
  induction es with
  | nil => rfl
  | cons e es ih => rw [nodesAll, ih, List.flatMap_cons]

/-- A property that all lists have, and all atoms of the expression, holds at every node. -/
theorem forall_nodes {P : Atom → Prop} {Q : Expr → Prop} (hatom : ∀ s a, P a → Q (.atom s a))
    (hlist : ∀ s es, Q (.list s es)) {e : Expr} (h : e.Leaves P) : ∀ d ∈ e.nodes, Q d := by
  induction e with
  | atom s a =>
    rw [nodes, List.forall_mem_singleton]
    exact hatom s a (leaves_atom.1 h)
  | list s es ih =>
    rw [leaves_list] at h
    rw [nodes, nodesAll_eq, List.forall_mem_cons]
    refine ⟨hlist s es, fun d hd => ?_⟩
    obtain ⟨e, he, hd⟩ := List.mem_flatMap.1 hd
    exact ih e he (h e he) d hd

/-- Every node holds a value that belongs to its kind. -/
def Sound (e : Expr) : Prop := ∀ d ∈ e.nodes, d.kind.Owns d.native

theorem sound_of_leaves {e : Expr} (h : e.Leaves Atom.WellFormed) : e.Sound :=
  forall_nodes (fun _ _ ha => Atom.owns_native ha) (fun _ es => ⟨es, rfl⟩) h

/-! ## From native values -/

variable {v : Native} {e : Expr} {kind : IntKind} {P : Atom → Prop}

theorem checkedInt_ok {n : Int} (h : checkedInt kind n = .ok e) :
    e = .atom none (.int kind n) ∧ kind.contains n = true := by
  rw [checkedInt] at h
  split_ifs at h with hn
  cases h
  exact ⟨rfl, hn⟩

theorem leaves_checkedInt {n : Int} (h : checkedInt kind n = .ok e) :
    e.Leaves Atom.WellFormed := by
  obtain ⟨rfl, hn⟩ := checkedInt_ok h
  exact leaves_atom.2 hn

theorem leaves_withSource (h : e.Leaves P) (s : Source) : (e.withSource s).Leaves P := by
  cases e with
  | atom s' a => exact leaves_atom.2 (leaves_atom.1 h)
  | list s' es => exact leaves_list.2 (leaves_list.1 h)

theorem leaves_ofKind {k : Kind} (hv : ∀ d ∈ v.held, d.Leaves Atom.WellFormed)
    (h : ofKind k v = .ok e) : e.Leaves Atom.WellFormed := by
  cases k with
  | int k =>
    cases v with
    | int n => exact leaves_checkedInt h
    | _ => cases h
  | list =>
    cases v with
    | exprs es =>
      cases h
      exact leaves_list.2 hv
    | _ => cases h
  | _ =>
    cases v <;> cases h
    all_goals exact leaves_atom.2 trivial

theorem leaves_make {kind : String} {source : Source}
    (hv : ∀ d ∈ v.held, d.Leaves Atom.WellFormed) (h : make kind v source = .ok e) :
    e.Leaves Atom.WellFormed := by
  unfold make at h
  split at h
  · cases h
  · obtain ⟨d, hd, rfl⟩ := map_ok_iff.1 h
    exact leaves_withSource (leaves_ofKind hv hd) source

theorem leaves_ofInteger (h : ofInteger kind v = .ok e) : e.Leaves Atom.WellFormed := by
  unfold ofInteger at h
  split at h
  · exact leaves_checkedInt h
  · cases h

/-- What is required to be expressions is these expressions. -/
theorem map_of_requireExprs {index : Nat} {items : List Native} {es : List Expr}
    (h : requireExprs index items = .ok es) : items = es.map .expr := by
  induction items generalizing index es with
  | nil =>
    cases h
    rfl
  | cons item items ih =>
    cases item with
    | expr d =>
      obtain ⟨es', hes', rfl⟩ := map_ok_iff.1 h
      rw [List.map_cons, ← ih hes']
    | _ => cases h

theorem mem_held_of_items? {items : List Native} (h : v.items? = some items)
    (he : .expr e ∈ items) : e ∈ v.held := by
  cases v with
  | list items' | tuple items' =>
    cases h
    rw [Native.held, Native.heldAll_eq]
    exact List.mem_flatMap.2 ⟨.expr e, he, List.mem_singleton.2 rfl⟩
  | exprs es =>
    cases h
    obtain ⟨d, hd, heq⟩ := List.mem_map.1 he
    cases heq
    exact hd
  | str s | bytes bs | buffer bs | mapping fields =>
    cases h
    obtain ⟨_, _, heq⟩ := List.mem_map.1 he
    cases heq
  | _ => cases h

theorem leaves_ofList (hv : ∀ d ∈ v.held, d.Leaves P) (h : ofList v = .ok e) : e.Leaves P := by
  unfold ofList at h
  split at h
  · cases h
  next items hitems =>
    obtain ⟨es, hes, rfl⟩ := map_ok_iff.1 h
    refine leaves_list.2 fun d hd => hv d (mem_held_of_items? hitems ?_)
    rw [map_of_requireExprs hes]
    exact List.mem_map_of_mem hd

theorem ofNatives_ok {items : List Native} {es : List Expr} (h : ofNatives items = .ok es) :
    List.Forall₂ (fun v e => ofNative v = .ok e) items es := by
  induction items generalizing es with
  | nil =>
    cases h
    exact .nil
  | cons v vs ih =>
    obtain ⟨e, he, h⟩ := bind_ok_iff.1 h
    obtain ⟨es', hes', h⟩ := bind_ok_iff.1 h
    cases h
    exact .cons he (ih hes')

/-- A value is an expression or the elements of a list, becomes an atom, or has items that become
expressions. -/
theorem ofNative_cases (h : ofNative v = .ok e) :
    v = .expr e ∨ (∃ a, e = .atom none a ∧ a.WellFormed) ∨
      (∃ es, v = .exprs es ∧ e = .list none es) ∨
      ∃ items es, v.held = items.flatMap Native.held ∧ e = .list none es ∧
        List.Forall₂ (fun v e => ofNative v = .ok e) items es := by
  cases v with
  | expr d =>
    cases h
    exact .inl rfl
  | int n | sizedInt kind n =>
    obtain ⟨rfl, hn⟩ := checkedInt_ok h
    exact .inr (.inl ⟨_, rfl, hn⟩)
  | exprs es =>
    cases h
    exact .inr (.inr (.inl ⟨es, rfl, rfl⟩))
  | list items | tuple items =>
    obtain ⟨es, hes, rfl⟩ := map_ok_iff.1 h
    exact .inr (.inr (.inr ⟨items, es, Native.heldAll_eq items, rfl, ofNatives_ok hes⟩))
  | none | mapping fields | record name fields => cases h
  | _ =>
    cases h
    exact .inr (.inl ⟨_, rfl, trivial⟩)

/-- The induction is on the expression, not on the value, which may be an expression itself. -/
theorem leaves_ofNative (hv : ∀ d ∈ v.held, d.Leaves Atom.WellFormed) (h : ofNative v = .ok e) :
    e.Leaves Atom.WellFormed := by
  induction e generalizing v with
  | atom s a =>
    obtain rfl | ⟨a', heq, ha⟩ | ⟨es, rfl, heq⟩ | ⟨items, es, -, heq, -⟩ := ofNative_cases h
    · exact hv _ (List.mem_singleton.2 rfl)
    · cases heq
      exact leaves_atom.2 ha
    · cases heq
    · cases heq
  | list s es ih =>
    obtain rfl | ⟨a', heq, ha⟩ | ⟨es, rfl, heq⟩ | ⟨items, es, hheld, heq, hes⟩ := ofNative_cases h
    · exact hv _ (List.mem_singleton.2 rfl)
    · cases heq
    · cases heq
      exact leaves_list.2 hv
    · cases heq
      refine leaves_list.2 fun d hd => ?_
      obtain ⟨item, hitem, hof⟩ := exists_mem_of_forall₂ hes d hd
      refine ih d hd (fun c hc => hv c ?_) hof
      rw [hheld]
      exact List.mem_flatMap.2 ⟨item, hitem, hc⟩

/-! ## From messages and forms -/

theorem leaves_ofAtomPayload {k : Kind} {m : Message} {a : Atom} {source : Source}
    (h : Atom.ofPayload k m = .ok a) : (Expr.atom source a).Leaves Atom.WellFormed := by
  obtain ⟨hadmits, rfl, hpayload⟩ := Atom.admits_of_ofPayload h
  rw [leaves_atom]
  cases a with
  | int k n =>
    obtain ⟨n', rfl, hn⟩ := hadmits
    cases hpayload
    exact IntKind.contains_iff_holds.2 hn
  | _ => trivial

theorem leaves_ofMessage {m : Message} (h : ofMessage m = .ok e) : e.Leaves Atom.WellFormed := by
  induction e generalizing m with
  | atom s a =>
    obtain ⟨fields, k, payload, rfl, -, h⟩ := ofMessage_ok_iff.1 h
    obtain ⟨a', ha, heq⟩ | ⟨body, es, -, -, -, heq⟩ := ofPayload_ok_iff.1 h
    · cases heq
      exact leaves_ofAtomPayload ha
    · cases heq
  | list s es ih =>
    obtain ⟨fields, k, payload, rfl, -, h⟩ := ofMessage_ok_iff.1 h
    obtain ⟨a', ha, heq⟩ | ⟨body, es, -, -, hes, heq⟩ := ofPayload_ok_iff.1 h
    · cases heq
    · cases heq
      refine leaves_list.2 fun d hd => ?_
      obtain ⟨-, rfl⟩ | ⟨items, -, hitems⟩ := ofElements_ok_iff.1 hes
      · cases hd
      · obtain ⟨m, -, hm⟩ := exists_mem_of_forall₂ hitems d hd
        exact ih d hd hm

theorem textual_toAtom {form : Form} {a : Atom} (h : form.toAtom = .ok a) : a.Textual := by
  unfold Form.toAtom at h
  split at h
  · cases h; trivial
  · split at h
    · cases h
    · split_ifs at h with hn
      cases h
      exact ⟨rfl, hn⟩
  · split at h <;> cases h
    trivial
  · cases h
  · split at h <;> cases h
    trivial
  · cases h
  · cases h

theorem toExprs_ok {index : Nat} {forms : List Form} {es : List Expr}
    (h : Form.toExprs index forms = .ok es) :
    List.Forall₂ (fun form e => form.toExpr = .ok e) forms es := by
  induction forms generalizing index es with
  | nil =>
    cases h
    exact .nil
  | cons form forms ih =>
    rw [Form.toExprs] at h
    split at h
    · cases h
    next e he =>
      obtain ⟨es', hes', rfl⟩ := map_ok_iff.1 h
      exact .cons he (ih hes')

theorem leaves_toExpr {form : Form} (h : form.toExpr = .ok e) : e.Leaves Atom.Textual := by
  induction e generalizing form with
  | atom s a =>
    cases form with
    | list pos items =>
      obtain ⟨es, _, heq⟩ := map_ok_iff.1 h
      cases heq
    | _ =>
      obtain ⟨a', ha, heq⟩ := Form.exists_toAtom_of_toExpr (by simp) h
      cases heq
      exact leaves_atom.2 (textual_toAtom ha)
  | list s es ih =>
    cases form with
    | list pos items =>
      obtain ⟨es', hes, heq⟩ := map_ok_iff.1 h
      cases heq
      refine leaves_list.2 fun d hd => ?_
      obtain ⟨form, -, hform⟩ := exists_mem_of_forall₂ (toExprs_ok hes) d hd
      exact ih d hd hform
    | _ =>
      obtain ⟨a', _, heq⟩ := Form.exists_toAtom_of_toExpr (by simp) h
      cases heq

/-- The expressions of forms and of texts. -/
inductive OfText : Expr → Prop where
  | form {form : Form} {e : Expr} (h : form.toExpr = .ok e) : OfText e
  | parse {file : String} {source : List Char} {e : Expr} (h : parse file source = .ok e) : OfText e
  | parseAll {file : String} {source : List Char} {e : Expr} (h : e ∈ (parseAll file source).1) :
    OfText e
  | literal {source : List Char} {e : Expr} (h : parseLiteral source = .ok e) : OfText e

theorem exists_form_of_parse {file : String} {source : List Char} (h : parse file source = .ok e) :
    ∃ form reader, (Reader.ofSource file source).readForm = (.ok (some form), reader) ∧
      form.toExpr = .ok e := by
  unfold parse at h
  split at h
  · cases h
  · cases h
  next form reader hread =>
    split at h
    · cases h
    · cases h
    · exact ⟨form, reader, hread, h⟩

theorem exists_form_of_parseForms {after? : Option ReadError} {forms : List Form}
    (h : e ∈ (parseForms after? forms).1) : ∃ form ∈ forms, form.toExpr = .ok e := by
  induction forms with
  | nil => cases h
  | cons form forms ih =>
    rw [parseForms] at h
    split at h
    · cases h
    next d hd =>
      rcases List.mem_cons.1 h with rfl | h
      · exact ⟨form, List.mem_cons_self, hd⟩
      · obtain ⟨form', hform', h⟩ := ih h
        exact ⟨form', List.mem_cons_of_mem form hform', h⟩

theorem OfText.leaves (h : OfText e) : e.Leaves Atom.Textual := by
  cases h with
  | form h => exact leaves_toExpr h
  | parse h =>
    obtain ⟨form, -, -, h⟩ := exists_form_of_parse h
    exact leaves_toExpr h
  | parseAll h =>
    obtain ⟨form, -, h⟩ := exists_form_of_parseForms h
    exact leaves_toExpr h
  | literal h =>
    unfold parseLiteral at h
    split at h
    next d hd =>
      cases h
      obtain ⟨form, -, -, h⟩ := exists_form_of_parse hd
      exact leaves_toExpr h
    next => split at h <;> cases h

/-! ## In compiled programs -/

theorem compiled_constant {source : Source} {a : Atom} {n : Node} (hsymbol : ∀ s, a ≠ .symbol s)
    (h : constant source a = .ok n) : ∀ c ∈ n.constants, c.Leaves Atom.Compiled := by
  cases a with
  | int k m =>
    rw [constant] at h
    split_ifs at h with hm
    cases h
    exact List.forall_mem_singleton.2 (leaves_atom.2 ⟨rfl, hm⟩)
  | symbol s => exact absurd rfl (hsymbol s)
  | _ =>
    cases h
    exact List.forall_mem_singleton.2 (leaves_atom.2 trivial)

/-- What holds of the constants of atoms holds of the constants of all programs: operators are
references, so the constants are those of the arguments and clauses. -/
theorem leaves_constants_of {P Q : Atom → Prop}
    (hatom : ∀ {source : Source} {a : Atom} {n : Node}, P a → (∀ s, a ≠ .symbol s) →
      constant source a = .ok n → ∀ c ∈ n.constants, c.Leaves Q)
    {n : Node} (he : e.Leaves P) (h : e.compile .standard = .ok n) :
    ∀ c ∈ n.constants, c.Leaves Q := by
  induction e generalizing n with
  | atom source a =>
    obtain ⟨s, rfl, heq⟩ | ⟨hsymbol, heq⟩ := compile_atom .standard source a
    · cases heq.symm.trans h
      exact fun _ hc => absurd hc List.not_mem_nil
    · exact hatom (leaves_atom.1 he) hsymbol (heq.symm.trans h)
  | list source es ih =>
    rw [leaves_list] at he
    cases compiledList_of_compile h with
    | @call head operator args ns _ _ hargs =>
      intro c hc
      rw [Node.constants, Node.constants, List.nil_append, Node.constantsAll_eq] at hc
      obtain ⟨n, hn, hc⟩ := List.mem_flatMap.1 hc
      obtain ⟨arg, harg, hcompile⟩ := exists_mem_of_forall₂ hargs n hn
      have hmem := List.mem_cons_of_mem head harg
      exact ih arg hmem (he arg hmem) hcompile c hc
    | ifThen _ _ ht hc =>
      exact List.forall_mem_append.2 ⟨ih _ (by simp) (he _ (by simp)) ht,
        ih _ (by simp) (he _ (by simp)) hc⟩
    | ifThenElse _ _ ht hc ha =>
      exact List.forall_mem_append.2 ⟨List.forall_mem_append.2
        ⟨ih _ (by simp) (he _ (by simp)) ht, ih _ (by simp) (he _ (by simp)) hc⟩,
        ih _ (by simp) (he _ (by simp)) ha⟩

theorem leaves_true (e : Expr) : e.Leaves fun _ => True := by
  induction e with
  | atom s a => exact leaves_atom.2 trivial
  | list s es ih => exact leaves_list.2 ih

theorem leaves_constants {n : Node} (h : e.compile .standard = .ok n) :
    ∀ c ∈ n.constants, c.Leaves Atom.Compiled :=
  leaves_constants_of (fun _ => compiled_constant) e.leaves_true h

/-! ## Every way of building -/

/-- The expressions that can be built. The values that are handed in may hold expressions, which
have been built before. -/
inductive Built : Expr → Prop where
  | make {kind : String} {v : Native} {source : Source} {e : Expr} (hv : ∀ d ∈ v.held, Built d)
    (h : make kind v source = .ok e) : Built e
  | ofInteger {kind : IntKind} {v : Native} {e : Expr} (h : ofInteger kind v = .ok e) : Built e
  | ofBool {v : Native} {e : Expr} (h : ofBool v = .ok e) : Built e
  | ofSingle {v : Native} {e : Expr} (h : ofSingle v = .ok e) : Built e
  | ofDouble {v : Native} {e : Expr} (h : ofDouble v = .ok e) : Built e
  | ofBytes {v : Native} {e : Expr} (h : ofBytes v = .ok e) : Built e
  | ofString {v : Native} {e : Expr} (h : ofString v = .ok e) : Built e
  | ofSymbol {v : Native} {e : Expr} (h : ofSymbol v = .ok e) : Built e
  | ofList {v : Native} {e : Expr} (hv : ∀ d ∈ v.held, Built d) (h : ofList v = .ok e) : Built e
  | ofNative {v : Native} {e : Expr} (hv : ∀ d ∈ v.held, Built d) (h : ofNative v = .ok e) :
    Built e
  | withSource {e : Expr} (he : Built e) (source : Source) : Built (e.withSource source)
  | ofMessage {m : Message} {e : Expr} (h : ofMessage m = .ok e) : Built e
  | ofText {e : Expr} (h : OfText e) : Built e
  | element {source : Source} {es : List Expr} {i : Int} {e : Expr} (hes : Built (.list source es))
    (h : Sequence.nth? es i = some e) : Built e
  | slice {source : Source} {es ds : List Expr} {start stop step : Option Int} {e : Expr}
    (hes : Built (.list source es)) (h : Sequence.slice? es start stop step = some ds)
    (he : e ∈ ds) : Built e
  | constant {e : Expr} {n : Node} {c : Expr} (he : Built e) (h : e.compile .standard = .ok n)
    (hc : c ∈ n.constants) : Built c

theorem mem_of_nth? {α : Type} {xs : List α} {i : Int} {x : α} (h : Sequence.nth? xs i = some x) :
    x ∈ xs := by
  unfold Sequence.nth? at h
  split at h
  · exact List.mem_of_getElem? h
  · split at h
    · exact List.mem_of_getElem? h
    · cases h

theorem mem_of_slice? {α : Type} {xs ys : List α} {start stop step : Option Int} {y : α}
    (h : Sequence.slice? xs start stop step = some ys) (hy : y ∈ ys) : y ∈ xs := by
  unfold Sequence.slice? at h
  split at h
  · cases h
  · cases h
    obtain ⟨i, _, hi⟩ := List.mem_filterMap.1 hy
    exact List.mem_of_getElem? hi

theorem Built.leaves (h : Built e) : e.Leaves Atom.WellFormed := by
  induction h with
  | make _ h ih => exact leaves_make ih h
  | ofInteger h => exact leaves_ofInteger h
  | ofBool h =>
    cases h
    exact leaves_atom.2 trivial
  | ofString h =>
    unfold Expr.ofString at h
    split_ifs at h
    cases h
    exact leaves_atom.2 trivial
  | ofSingle h | ofDouble h | ofBytes h =>
    obtain ⟨_, _, rfl⟩ := map_ok_iff.1 h
    exact leaves_atom.2 trivial
  | @ofSymbol v e h =>
    cases v <;> cases h
    exact leaves_atom.2 trivial
  | ofList _ h ih => exact leaves_ofList ih h
  | ofNative _ h ih => exact leaves_ofNative ih h
  | withSource _ source ih => exact leaves_withSource ih source
  | ofMessage h => exact leaves_ofMessage h
  | ofText h => exact h.leaves.imp fun _ => Atom.Textual.wellFormed
  | element _ h ih => exact leaves_list.1 ih _ (mem_of_nth? h)
  | slice _ h he ih => exact leaves_list.1 ih _ (mem_of_slice? h he)
  | constant _ h hc => exact (leaves_constants h _ hc).imp fun _ => Atom.Compiled.wellFormed

/-- Every expression that can be built holds at each node a value that belongs to the kind of the
node, with integers in their range. A text gives five of the kinds only, and the integers in the
constants of a program are of one kind. -/
theorem sound_of_built (e : Expr) (h : Built e) :
    e.Sound ∧
      (OfText e → ∀ d ∈ e.nodes,
        d.kind ∈ [Kind.int .int64, Kind.double, Kind.string, Kind.symbol, Kind.list]) ∧
      ∀ n, e.compile .standard = .ok n → ∀ c ∈ n.constants, c.Sound ∧
        ∀ d ∈ c.nodes, ∀ k, d.kind = .int k → k = .int64 := by
  refine ⟨sound_of_leaves h.leaves, fun htext => ?_, fun n hn c hc => ?_⟩
  · refine forall_nodes ?_ ?_ htext.leaves
    · intro s a ha
      cases a with
      | int k n =>
        obtain rfl : k = .int64 := ha.1
        exact List.mem_cons_self
      | double _ | string _ | symbol _ => simp [kind, Atom.kind]
      | _ => cases ha
    · intro s es
      simp [kind]
  · refine ⟨sound_of_leaves (Built.constant h hn hc).leaves, ?_⟩
    refine forall_nodes ?_ ?_ (leaves_constants hn c hc)
    · intro s a ha k hk
      cases a with
      | int k' n =>
        cases hk
        exact ha.1
      | _ => cases hk
    · intro s es k hk
      cases hk

theorem sound_of_built_mixed :
    let sized : Expr := .list none [.atom none (.int .uint32 65535),
      .list none [.atom none (.symbol ⟨"+", ""⟩), .atom none (.int .sint32 5)]]
    let written : Expr := .list (some (.str "a:1:1")) [
      .atom (some (.str "a:1:2")) (.symbol ⟨"+", ""⟩), .atom (some (.str "a:1:4")) (.int .int64 7)]
    let program : Node := .call (some (.str "a:1:1"))
      (.reference (some (.str "a:1:2")) ⟨"+", ""⟩)
      [.constant (some (.str "a:1:4")) (.atom none (.int .int64 7))]
    sized.Sound ∧ written.Sound ∧
      (∀ d ∈ written.nodes,
        d.kind ∈ [Kind.int .int64, Kind.double, Kind.string, Kind.symbol, Kind.list]) ∧
      ∀ c ∈ program.constants, c.Sound ∧ ∀ d ∈ c.nodes, ∀ k, d.kind = .int k → k = .int64 := by
  intro sized written program
  let plus : Expr := .atom none (.symbol ⟨"+", ""⟩)
  let five : Expr := .atom none (.int .sint32 5)
  have hplus : ofSymbol (.symbol ⟨"+", ""⟩) = .ok plus := rfl
  have hfive : ofInteger .sint32 (.sizedInt .uint8 5) = .ok five := rfl
  have hsized : ofNative (.list [.sizedInt .uint16 65535, .tuple [.expr plus, .expr five]]) =
      .ok sized := rfl
  have hbuilt : Built sized := by
    refine .ofNative ?_ hsized
    simp only [Native.held, Native.heldAll, List.nil_append, List.append_nil,
      List.singleton_append, List.forall_mem_cons]
    exact ⟨.ofSymbol hplus, .ofInteger hfive, fun _ h => absurd h List.not_mem_nil⟩
  have hform : Form.toExpr (.list ⟨"a", 1, 1⟩ [.symbol ⟨"a", 1, 2⟩ ['+'],
      .number ⟨"a", 1, 4⟩ ['7'] .whole]) = .ok written := rfl
  have hcompile : written.compile .standard = .ok program := by with_unfolding_all rfl
  obtain ⟨hsound, hkinds, hconstants⟩ := sound_of_built written (.ofText (.form hform))
  exact ⟨(sound_of_built sized hbuilt).1, hsound, hkinds (.form hform),
    hconstants program hcompile⟩

end Expr

end Formulary
