import Formulary.Proofs.Program.Basic
import Formulary.Proofs.Program.Conditional

/-!
# Programs read back as expressions

A program reads as the expression that it was compiled from, up to what compilation forgets: the
kinds of integers, which all become 64-bit ones, and the spelling of the operators of
conditionals. Nothing else is forgotten, and every node has the source context of the
sub-expression in its place.
-/
namespace Formulary

/-- The same atom, with an integer of any kind as a 64-bit one. -/
def Atom.widened : Atom → Atom
  | .int _ n => .int .int64 n
  | a => a

/-- The operator with which a conditional is read back; no node stands for it. -/
def Conditional.operator : Expr := .atom none (.symbol ⟨"if", ""⟩)

namespace Node

mutual

/-- The expression that a program reads as. Each node gives its source context to the expression
in its place. -/
def readBack : Node → Expr
  | .constant s e => e.withSource s
  | .reference s v => .atom s (.symbol v)
  | .call s f as => .list s (readBack f :: readBackAll as)
  | .ifThen s t a => .list s [Conditional.operator, readBack t, readBack a]
  | .ifThenElse s t a b => .list s [Conditional.operator, readBack t, readBack a, readBack b]

def readBackAll : List Node → List Expr
  | [] => []
  | n :: ns => readBack n :: readBackAll ns

end

end Node

namespace Expr

/-- Puts the plain operator in front of the arguments of a conditional. -/
def respell : List Expr → List Expr
  | [] => []
  | head :: args =>
    (if head.isConditionalOperator then Conditional.operator else head) :: args

mutual

/-- The expression with 64-bit integers and with plain operators of conditionals. -/
def canonical : Expr → Expr
  | .atom s a => .atom s a.widened
  | .list s es => .list s (respell (canonicalAll es))

def canonicalAll : List Expr → List Expr
  | [] => []
  | e :: es => canonical e :: canonicalAll es

end

/-- The expressions differ at most in the kinds of their integers, in their source contexts and in
the spelling of the operators of conditionals. -/
inductive Alike : Expr → Expr → Prop where
  | atom {s s' : Source} {a a' : Atom} (h : a.widened = a'.widened) :
      Alike (.atom s a) (.atom s' a')
  | list {s s' : Source} {es es' : List Expr} (h : List.Forall₂ Alike es es') :
      Alike (.list s es) (.list s' es')
  | conditional {s s' : Source} {head head' : Expr} {args args' : List Expr}
      (hhead : head.isConditionalOperator = true) (hhead' : head'.isConditionalOperator = true)
      (h : List.Forall₂ Alike args args') :
      Alike (.list s (head :: args)) (.list s' (head' :: args'))

theorem canonicalAll_eq (es : List Expr) : canonicalAll es = es.map canonical := by
  induction es with
  | nil => rfl
  | cons e es ih => rw [canonicalAll, ih, List.map_cons]

theorem canonical_of_symbol? {e : Expr} {s : Symbol} (h : e.symbol? = some s) :
    e.canonical = .atom e.source (.symbol s) := by
  cases e with
  | list source es => cases h
  | atom source a =>
    cases a with
    | symbol s' =>
      cases h
      rfl
    | _ => cases h

theorem symbol?_canonical (e : Expr) : e.canonical.symbol? = e.symbol? := by
  cases e with
  | list source es => rfl
  | atom source a => cases a <;> rfl

theorem isConditionalOperator_canonical (e : Expr) :
    e.canonical.isConditionalOperator = e.isConditionalOperator := by
  rw [isConditionalOperator, isConditionalOperator, symbol?_canonical]

end Expr

/-! ## Reading back what was compiled -/

namespace Node

theorem readBackAll_eq (ns : List Node) : readBackAll ns = ns.map readBack := by
  induction ns with
  | nil => rfl
  | cons n ns ih => rw [readBackAll, ih, List.map_cons]

theorem readBack_constant {source : Source} {a : Atom} {n : Node}
    (h : Expr.constant source a = .ok n) : n.readBack = .atom source a.widened := by
  unfold Expr.constant at h
  split at h
  · split_ifs at h
    cases h
    rfl
  next hint =>
    cases h
    cases a with
    | int kind k => exact absurd rfl (hint kind k)
    | _ => rfl

theorem map_readBack {es : List Expr} {ns : List Node}
    (hes : ∀ e ∈ es, ∀ n, e.compile .standard = .ok n → n.readBack = e.canonical)
    (h : List.Forall₂ (fun e n => e.compile .standard = .ok n) es ns) :
    ns.map readBack = es.map Expr.canonical := by
  induction h with
  | nil => rfl
  | cons hn _ ih =>
    rw [List.forall_mem_cons] at hes
    rw [List.map_cons, List.map_cons, hes.1 _ hn, ih hes.2]

theorem readBack_of_compile {e : Expr} {n : Node} (h : e.compile .standard = .ok n) :
    n.readBack = e.canonical := by
  induction e generalizing n with
  | atom source a =>
    obtain ⟨s, rfl, heq⟩ | ⟨-, heq⟩ := Expr.compile_atom .standard source a
    · cases heq.symm.trans h
      rfl
    · exact readBack_constant (heq.symm.trans h)
  | list source es ih =>
    rw [Expr.canonical, Expr.canonicalAll_eq]
    cases Expr.compiledList_of_compile h with
    | @call head operator args ns hhead hif hargs =>
      have hns : ns.map readBack = args.map Expr.canonical :=
        map_readBack (fun e he _ hn => ih e (List.mem_cons_of_mem head he) hn) hargs
      rw [List.map_cons, Expr.respell, Expr.isConditionalOperator_canonical, hif,
        Expr.canonical_of_symbol? hhead, readBack, readBackAll_eq, hns, readBack]
      rfl
    | ifThen hif _ ht hc =>
      simp only [List.map_cons, List.map_nil, Expr.respell, Expr.isConditionalOperator_canonical,
        hif, if_true, readBack]
      rw [ih _ (by simp) ht, ih _ (by simp) hc]
    | ifThenElse hif _ ht hc ha =>
      simp only [List.map_cons, List.map_nil, Expr.respell, Expr.isConditionalOperator_canonical,
        hif, if_true, readBack]
      rw [ih _ (by simp) ht, ih _ (by simp) hc, ih _ (by simp) ha]

/-! ## Programs that differ in their source contexts only -/

theorem withSource_bare (e : Expr) : e.bare.withSource none = e.bare := by
  cases e <;> rfl

theorem readBack_relocate_none (n : Node) :
    (n.relocate fun _ => none).readBack = n.readBack.bare := by
  induction n with
  | constant s e => rw [relocate, readBack, readBack, Expr.bare_withSource, withSource_bare]
  | reference s v => rfl
  | call s f as hf has =>
    rw [relocate, relocateAll_eq, readBack, readBackAll_eq, readBack, readBackAll_eq, Expr.bare,
      Expr.bareAll_eq, List.map_cons, hf, List.map_map, List.map_map]
    congr 2
    exact List.map_congr_left has
  | ifThen s t a ht ha =>
    rw [relocate, readBack, readBack, ht, ha]
    rfl
  | ifThenElse s t a b ht ha hb =>
    rw [relocate, readBack, readBack, ht, ha, hb]
    rfl

end Node

namespace Expr

theorem isConditionalOperator_bare (e : Expr) :
    e.bare.isConditionalOperator = e.isConditionalOperator := by
  cases e with
  | list source es => rfl
  | atom source a => cases a <;> rfl

theorem forall₂_alike {es es' : List Expr}
    (hes : ∀ e ∈ es, ∀ e', e.canonical.bare = e'.canonical.bare → Alike e e')
    (h : (es.map canonical).map bare = (es'.map canonical).map bare) :
    List.Forall₂ Alike es es' := by
  induction es generalizing es' with
  | nil =>
    cases es' with
    | nil => exact .nil
    | cons e' es' => cases h
  | cons e es ih =>
    cases es' with
    | nil => cases h
    | cons e' es' =>
      rw [List.forall_mem_cons] at hes
      simp only [List.map_cons, List.cons.injEq] at h
      exact .cons (hes.1 e' h.1) (ih hes.2 h.2)

theorem alike_of_canonical {e e' : Expr} (h : e.canonical.bare = e'.canonical.bare) :
    Alike e e' := by
  induction e generalizing e' with
  | atom s a =>
    cases e' with
    | atom s' a' =>
      simp only [canonical, bare, atom.injEq, true_and] at h
      exact .atom h
    | list s' es' => simp [canonical, bare] at h
  | list s es ih =>
    cases e' with
    | atom s' a' => simp [canonical, bare] at h
    | list s' es' =>
      simp only [canonical, bare, list.injEq, true_and, bareAll_eq, canonicalAll_eq] at h
      cases es with
      | nil =>
        cases es' with
        | nil => exact .list .nil
        | cons head' args' => cases h
      | cons head args =>
        cases es' with
        | nil => cases h
        | cons head' args' =>
          simp only [List.map_cons, respell, List.cons.injEq, isConditionalOperator_canonical]
            at h
          obtain ⟨hhead, hargs⟩ := h
          rw [List.forall_mem_cons] at ih
          have hall := forall₂_alike (fun e he _ h => ih.2 e he h) hargs
          have hoperator : Conditional.operator.isConditionalOperator = true := by decide
          by_cases hif : head.isConditionalOperator <;> by_cases hif' : head'.isConditionalOperator
          · exact .conditional hif hif' hall
          · rw [if_pos hif, if_neg hif'] at hhead
            have hsame := congrArg isConditionalOperator hhead
            rw [isConditionalOperator_bare, isConditionalOperator_bare,
              isConditionalOperator_canonical, hoperator] at hsame
            exact absurd hsame.symm hif'
          · rw [if_neg hif, if_pos hif'] at hhead
            have hsame := congrArg isConditionalOperator hhead
            rw [isConditionalOperator_bare, isConditionalOperator_bare,
              isConditionalOperator_canonical, hoperator] at hsame
            exact absurd hsame hif
          · rw [if_neg hif, if_neg hif'] at hhead
            exact .list (.cons (ih.1 hhead) hall)

end Expr

namespace Node

/-- A program that was compiled in the standard environment reads back as its expression, with
64-bit integers and plain operators of conditionals, and with the source context of every node in
its place. So expressions whose programs are the same but for source contexts differ in nothing
else that a program could show. -/
theorem readBack_compile (e : Expr) (n : Node) (h : e.compile .standard = .ok n) :
    n.readBack = e.canonical ∧
      ∀ e' n', e'.compile .standard = .ok n' →
        (n.relocate fun _ => none) = (n'.relocate fun _ => none) → Expr.Alike e e' := by
  refine ⟨readBack_of_compile h, ?_⟩
  intro e' n' h' hsame
  apply Expr.alike_of_canonical
  have hread := congrArg readBack hsame
  rwa [readBack_relocate_none, readBack_relocate_none, readBack_of_compile h,
    readBack_of_compile h'] at hread

theorem readBack_compile_nested :
    let e : Expr := .list (some (.str "f:1"))
      [.atom (some (.str "f:2")) (.symbol ⟨"if", "formula"⟩),
      .atom (some (.str "f:3")) (.symbol ⟨"x", ""⟩),
      .list none [.atom (some (.str "f:4")) (.symbol ⟨"+", ""⟩), .atom none (.int .uint32 1)],
      .atom none (.string "s")]
    let e' : Expr := .list none [.atom none (.symbol ⟨"if", ""⟩), .atom none (.symbol ⟨"x", ""⟩),
      .list none [.atom none (.symbol ⟨"+", ""⟩), .atom none (.int .sint64 1)],
      .atom none (.string "s")]
    let n : Node := .ifThenElse (some (.str "f:1")) (.reference (some (.str "f:3")) ⟨"x", ""⟩)
      (.call none (.reference (some (.str "f:4")) ⟨"+", ""⟩)
        [.constant none (.atom none (.int .int64 1))]) (.constant none (.atom none (.string "s")))
    e.compile .standard = .ok n ∧
      n.readBack = .list (some (.str "f:1")) [.atom none (.symbol ⟨"if", ""⟩),
        .atom (some (.str "f:3")) (.symbol ⟨"x", ""⟩),
        .list none [.atom (some (.str "f:4")) (.symbol ⟨"+", ""⟩), .atom none (.int .int64 1)],
        .atom none (.string "s")] ∧
      e'.compile .standard = .ok (n.relocate fun _ => none) ∧ Expr.Alike e e' := by
  intro e e' n
  have h : e.compile .standard = .ok n := by with_unfolding_all rfl
  have h' : e'.compile .standard = .ok (n.relocate fun _ => none) := by with_unfolding_all rfl
  obtain ⟨hread, halike⟩ := readBack_compile e n h
  exact ⟨h, hread, h', halike e' _ h' rfl⟩

end Node

end Formulary
