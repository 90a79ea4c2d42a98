import Formulary.Evaluation.Eval
import Formulary.Proofs.Evaluation.Arithmetic
import Formulary.Proofs.Expr.Basic
import Formulary.Proofs.Standard

/-!
# Formulas of integers

A formula of integers, however large they are and however deeply sums and differences are nested,
evaluates to the integer that it denotes. So the summands of every sum in it can change places or
be put together to sums of their own, and what is subtracted can be summed first.
-/
namespace Formulary

open Arithmetic (exactDifference)

namespace Expr

/-- The expression is an integer, or a sum or a difference of such expressions. -/
inductive IntegerFormula : Expr → Prop where
  | int (source : Source) (kind : IntKind) (n : Int) : IntegerFormula (.atom source (.int kind n))
  | call {source : Source} {head : Expr} {args : List Expr}
      (hhead : head.isOperator "+" = true ∨ head.isOperator "-" = true)
      (hargs : ∀ e ∈ args, IntegerFormula e) : IntegerFormula (.list source (head :: args))

mutual

/-- The integer that a formula denotes. -/
def integer : Expr → Int
  | .atom _ (.int _ n) => n
  | .atom _ _ => 0
  | .list _ [] => 0
  | .list _ (head :: args) =>
    if head.isOperator "-" then exactDifference (integers args) else (integers args).sum

def integers : List Expr → List Int
  | [] => []
  | e :: es => integer e :: integers es

end

/-- One formula comes from another by changes at any depth: summands change places, some of them
are put together to a sum of their own, and what is subtracted is summed first. Each change can
be taken back. -/
inductive Rearranged : Expr → Expr → Prop where
  | refl (e : Expr) : Rearranged e e
  | symm {a b : Expr} (hab : Rearranged a b) : Rearranged b a
  | trans {a b c : Expr} (hab : Rearranged a b) (hbc : Rearranged b c) : Rearranged a c
  | permute {plus : Expr} {xs ys : List Expr} (source : Source)
      (hplus : plus.isOperator "+" = true) (h : xs.Perm ys) :
      Rearranged (.list source (plus :: xs)) (.list source (plus :: ys))
  | group {plus plus' : Expr} (source inner : Source) (xs ys zs : List Expr)
      (hplus : plus.isOperator "+" = true) (hplus' : plus'.isOperator "+" = true) :
      Rearranged (.list source (plus :: (xs ++ (ys ++ zs))))
        (.list source (plus :: (xs ++ .list inner (plus' :: ys) :: zs)))
  | subtrahend {minus plus : Expr} (source inner : Source) (first : Expr) {rest : List Expr}
      (hminus : minus.isOperator "-" = true) (hplus : plus.isOperator "+" = true)
      (hrest : rest ≠ []) :
      Rearranged (.list source (minus :: first :: rest))
        (.list source [minus, first, .list inner (plus :: rest)])
  | within {e e' : Expr} (source : Source) (head : Expr) (before after : List Expr)
      (h : Rearranged e e') :
      Rearranged (.list source (head :: (before ++ e :: after)))
        (.list source (head :: (before ++ e' :: after)))

/-! ## The integer of a formula -/

theorem integers_eq (es : List Expr) : integers es = es.map integer := by
  induction es with
  | nil => rfl
  | cons e es ih => rw [integers, ih, List.map_cons]

theorem integer_sum {source : Source} {head : Expr} {args : List Expr}
    (h : head.isOperator "+" = true) :
    (Expr.list source (head :: args)).integer = (args.map integer).sum := by
  rw [integer, integers_eq, if_neg]
  intro hminus
  exact absurd (isOperator_inj h hminus) (by decide)

theorem integer_difference {source : Source} {head : Expr} {args : List Expr}
    (h : head.isOperator "-" = true) :
    (Expr.list source (head :: args)).integer = exactDifference (args.map integer) := by
  rw [integer, if_pos h, integers_eq]

theorem exactDifference_cons {n : Int} {ns : List Int} (h : ns ≠ []) :
    exactDifference (n :: ns) = n - ns.sum := by
  cases ns with
  | nil => exact absurd rfl h
  | cons m ms => rfl

/-! ## Evaluation -/

theorem evalArgs_integers {l : Location} {es : List Expr}
    (h : ∀ e ∈ es, e.evalAt .standard l = .ok (.int e.integer)) :
    evalArgs .standard l es = .ok ((es.map integer).map .int) := by
  induction es with
  | nil => rfl
  | cons e es ih =>
    obtain ⟨he, hes⟩ := List.forall_mem_cons.1 h
    rw [evalArgs, he, ih hes]
    rfl

/-- The induction over the formula; the location changes on the way down. -/
theorem evalAt_integer {e : Expr} (h : e.IntegerFormula) (l : Location) :
    e.evalAt .standard l = .ok (.int e.integer) := by
  induction h generalizing l with
  | int source kind n => rfl
  | @call source head args hhead hargs ih =>
    have hvalues := evalArgs_integers fun e he => ih e he (l.enter source)
    rcases hhead with hplus | hminus
    · obtain ⟨s, hs, hadd⟩ := isOperator_iff.1 hplus
      rw [evalAt_function hs (Environment.function?_add hadd), hvalues, ok_bind, integer_sum hplus]
      exact Arithmetic.located_of_ok (Arithmetic.add_integers _) _
    · obtain ⟨s, hs, hsub⟩ := isOperator_iff.1 hminus
      rw [evalAt_function hs (Environment.function?_sub hsub), hvalues, ok_bind,
        integer_difference hminus]
      exact Arithmetic.located_of_ok (Arithmetic.sub_integers _) _

/-! ## Rearranging a formula -/

theorem integerFormula_list {source : Source} {head : Expr} {args : List Expr} :
    IntegerFormula (.list source (head :: args)) ↔
      (head.isOperator "+" = true ∨ head.isOperator "-" = true) ∧
        ∀ e ∈ args, e.IntegerFormula := by
  constructor
  · rintro (_ | ⟨hhead, hargs⟩)
    exact ⟨hhead, hargs⟩
  · rintro ⟨hhead, hargs⟩
    exact .call hhead hargs

theorem Rearranged.integerFormula_iff {e e' : Expr} (h : Rearranged e e') :
    e.IntegerFormula ↔ e'.IntegerFormula := by
  induction h with
  | refl e => exact Iff.rfl
  | symm _ ih => exact ih.symm
  | trans _ _ ihab ihbc => exact ihab.trans ihbc
  | permute source hplus h => simp only [integerFormula_list, h.mem_iff]
  | group source inner xs ys zs hplus hplus' =>
    simp only [integerFormula_list, hplus, hplus', true_or, true_and, List.forall_mem_append,
      List.forall_mem_cons]
  | subtrahend source inner first hminus hplus hrest =>
    simp only [integerFormula_list, hplus, true_or, true_and, List.forall_mem_cons,
      List.not_mem_nil, false_implies, implies_true, and_true]
  | within source head before after h ih =>
    simp only [integerFormula_list, List.forall_mem_append, List.forall_mem_cons, ih]

theorem Rearranged.integer_eq {e e' : Expr} (h : Rearranged e e') : e.integer = e'.integer := by
  induction h with
  | refl e => rfl
  | symm _ ih => exact ih.symm
  | trans _ _ ihab ihbc => exact ihab.trans ihbc
  | permute source hplus h =>
    rw [integer_sum hplus, integer_sum hplus]
    exact (h.map integer).sum_eq
  | group source inner xs ys zs hplus hplus' =>
    rw [integer_sum hplus, integer_sum hplus]
    simp only [List.map_append, List.map_cons, List.sum_append, List.sum_cons, integer_sum hplus']
  | subtrahend source inner first hminus hplus hrest =>
    rw [integer_difference hminus, integer_difference hminus, List.map_cons, List.map_cons,
      exactDifference_cons (by simpa using hrest), exactDifference_cons (by simp), List.map_cons,
      integer_sum hplus, List.map_nil, List.sum_singleton]
  | within source head before after h ih =>
    simp only [integer, integers_eq, List.map_append, List.map_cons, ih]

/-- A formula of integers evaluates to the integer that it denotes, and so does every formula that
comes from it by rearranging. -/
theorem eval_integer (e : Expr) (h : e.IntegerFormula) :
    e.eval .standard = .ok (.int e.integer) ∧
      ∀ e', Rearranged e e' → e'.eval .standard = .ok (.int e.integer) := by
  refine ⟨evalAt_integer h {}, ?_⟩
  intro e' he'
  rw [he'.integer_eq]
  exact evalAt_integer (he'.integerFormula_iff.1 h) {}

theorem eval_integer_nested :
    let plus : Expr := .atom none (.symbol ⟨"+", ""⟩)
    let minus : Expr := .atom none (.symbol ⟨"-", "formula"⟩)
    let n : Expr := .atom none (.int .uint64 18446744073709551615)
    let one : Expr := .atom none (.int .sint32 (-1))
    Expr.eval .standard (.list none [minus, n, one, .list (some (.str "f:7")) [plus, n, n]]) =
        .ok (.int (-18446744073709551614)) ∧
      Expr.eval .standard (.list none [minus, n, .list none [plus, one, n, n]]) =
        .ok (.int (-18446744073709551614)) := by
  intro plus minus n one
  have hn : n.IntegerFormula := .int _ _ _
  have hone : one.IntegerFormula := .int _ _ _
  have hsum : IntegerFormula (.list (some (.str "f:7")) [plus, n, n]) :=
    .call (.inl rfl) (by simpa using hn)
  have hargs : ∀ e ∈ [n, one, .list (some (.str "f:7")) [plus, n, n]], e.IntegerFormula := by
    simpa using ⟨hn, hone, hsum⟩
  obtain ⟨hvalue, hrearranged⟩ := eval_integer
    (.list none [minus, n, one, .list (some (.str "f:7")) [plus, n, n]]) (.call (.inr rfl) hargs)
  refine ⟨hvalue, hrearranged _ ?_⟩
  have hplus : plus.isOperator "+" = true := rfl
  apply Rearranged.trans
  · exact .subtrahend none none n rfl hplus (List.cons_ne_nil _ _)
  · exact .within none minus [n] [] (.symm (.group none _ [one] [n, n] [] hplus hplus))

end Expr

end Formulary
