import Formulary.Program.Trace
import Formulary.Proofs.Program.Conditional
import Formulary.Proofs.Standard

/-!
# Traces follow the compilation

In the standard environment a compilation reports the conditional forms of the expression, each
one when it is reached. If it succeeds, it has reported all of them; if it fails, it has reported
those that stand before the fault, and no other.
-/
namespace Formulary

namespace Expr

mutual

/-- How many conditional forms stand in an expression; heads are not compiled on their own. -/
def conditionals : Expr → Nat
  | .atom _ _ => 0
  | .list _ [] => 0
  | .list _ (head :: args) => (if head.isOperator "if" then 1 else 0) + conditionalsAll args

def conditionalsAll : List Expr → Nat
  | [] => 0
  | e :: es => conditionals e + conditionalsAll es

end

end Expr

/-- What has been reported while `x` was computed, where `count` conditionals are compiled if
nothing fails. -/
structure Reports {α : Type} (x : Except CompileError α) (reported : List Symbol) (count : Nat) :
    Prop where
  begins : reported <+: List.replicate count Conditional.specialForm.name
  full : ∀ a, x = .ok a → reported = List.replicate count Conditional.specialForm.name

namespace Reports

variable {α β : Type} {x : Except CompileError α} {y : Except CompileError β}
  {reported rest : List Symbol} {count k l : Nat}

theorem nothing (x : Except CompileError α) : Reports x [] 0 := ⟨List.nil_prefix, fun _ _ => rfl⟩

theorem failed (h : ∀ a, x ≠ .ok a)
    (hreported : reported <+: List.replicate count Conditional.specialForm.name) :
    Reports x reported count :=
  ⟨hreported, fun a ha => absurd ha (h a)⟩

/-- After a step that succeeds the report goes on with what follows; a step that fails ends it. -/
theorem step (hx : Reports x reported k)
    (herror : ∀ cause, x = .error cause → rest = [] ∧ ∀ b, y ≠ .ok b)
    (hok : ∀ a, x = .ok a → Reports y rest l) : Reports y (reported ++ rest) (k + l) := by
  cases x with
  | error cause =>
    obtain ⟨rfl, hy⟩ := herror cause rfl
    refine .failed hy ?_
    rw [List.append_nil, List.replicate_add]
    exact hx.begins.trans (List.prefix_append _ _)
  | ok a =>
    have hy := hok a rfl
    rw [hx.full a rfl]
    constructor
    · rw [List.replicate_add, List.prefix_append_right_inj]
      exact hy.begins
    · intro b hb
      rw [hy.full b hb, List.replicate_add]

theorem cons (h : Reports x reported k) :
    Reports x (Conditional.specialForm.name :: reported) (1 + k) := by
  constructor
  · rw [Nat.add_comm, List.replicate_succ, List.cons_prefix_cons]
    exact ⟨rfl, h.begins⟩
  · intro a ha
    rw [h.full a ha, Nat.add_comm, List.replicate_succ]

theorem map (f : α → β) (h : Reports x reported k) : Reports (x.map f) reported k := by
  refine ⟨h.begins, fun b hb => ?_⟩
  obtain ⟨a, ha, -⟩ := map_ok_iff.1 hb
  exact h.full a ha

/-- The clauses of an expansion are compiled one after the other. -/
theorem clause {size : Nat} {compile : Expr → Except CompileError Node}
    {traced : Expr → List Symbol} {name : String} {e : Expr} {smaller : e.size < size}
    {next : Node → Expansion size} (he : Reports (compile e) (traced e) k)
    (hnext : ∀ n, Reports ((next n).run fun e _ => compile e)
      ((next n).trace compile fun e _ => traced e) l) :
    Reports ((Expansion.clause name e smaller next).run fun e _ => compile e)
      ((Expansion.clause name e smaller next).trace compile fun e _ => traced e) (k + l) := by
  rw [Expansion.run, Expansion.trace]
  cases hcompile : compile e with
  | error cause => exact step he (by simp) (by simp [hcompile])
  | ok n => exact step he (by simp [hcompile]) fun _ _ => hnext n

end Reports

namespace Conditional

theorem Clauses.reports {size : Nat} {compile : Expr → Except CompileError Node}
    {traced : Expr → List Symbol} {count : Expr → Nat} (c : Clauses size) (source : Source)
    (htest : Reports (compile c.test) (traced c.test) (count c.test))
    (hrest : ∀ e ∈ c.rest, Reports (compile e) (traced e) (count e)) {x : Expansion size}
    (hx : c.expand source = .ok x) :
    Reports (x.run fun e _ => compile e) (x.trace compile fun e _ => traced e)
      (count c.test + (c.rest.map count).sum) := by
  match c with
  | ⟨_, [], _, _⟩ | ⟨_, _ :: _ :: _ :: _, _, _⟩ => cases hx
  | ⟨_, [consequent], _, _⟩ =>
    cases hx
    exact .clause htest fun t => .clause (hrest _ (by simp)) fun n => .nothing _
  | ⟨_, [consequent, alternative], _, _⟩ =>
    cases hx
    exact .clause htest fun t => .clause (hrest _ (by simp)) fun n =>
      .clause (hrest _ (by simp)) fun a => .nothing _

end Conditional

namespace Expr

theorem conditionalsAll_eq (es : List Expr) : conditionalsAll es = (es.map conditionals).sum := by
  induction es with
  | nil => rfl
  | cons e es ih => rw [conditionalsAll, ih, List.map_cons, List.sum_cons]

theorem reports_compileArgs {es : List Expr}
    (h : ∀ e ∈ es, Reports (e.compile .standard) (e.trace .standard) e.conditionals)
    (index : Nat) :
    Reports (compileArgs .standard index es) (traceArgs .standard es) (conditionalsAll es) := by
  induction es generalizing index with
  | nil =>
    rw [traceArgs]
    exact .nothing _
  | cons e es ih =>
    obtain ⟨he, hes⟩ := List.forall_mem_cons.1 h
    rw [compileArgs, traceArgs, conditionalsAll]
    cases hcompile : e.compile .standard with
    | error cause => exact he.step (by simp) (by simp [hcompile])
    | ok n => exact he.step (by simp [hcompile]) fun _ _ => (ih hes _).map _

section Equations

variable {env : Environment} {source : Source} {head : Expr} {args : List Expr}
  {operator symbol : Symbol} {form : SpecialForm}

theorem trace_special_error {cause : CompileError} (hhead : head.symbol? = some operator)
    (hresolve : env.resolve? operator .both = some ⟨symbol, .special form⟩)
    (hexpand : form.expand source (head :: args) = .error cause) :
    (Expr.list source (head :: args)).trace env = [symbol] := by
  simp only [trace, hhead, Option.bind_some, hresolve, hexpand]

theorem trace_special_ok {x : Expansion (Expr.list source (head :: args)).size}
    (hhead : head.symbol? = some operator)
    (hresolve : env.resolve? operator .both = some ⟨symbol, .special form⟩)
    (hexpand : form.expand source (head :: args) = .ok x) :
    (Expr.list source (head :: args)).trace env =
      symbol :: x.trace (compile env) fun e _ => e.trace env := by
  simp only [trace, hhead, Option.bind_some, hresolve, hexpand]

theorem trace_function {b : Binding} (hhead : head.symbol? = some operator)
    (hresolve : env.resolve? operator .both = some b) (hfunction : b.meaning.function? ≠ none) :
    (Expr.list source (head :: args)).trace env = traceArgs env args := by
  obtain ⟨symbol, meaning⟩ := b
  cases meaning with
  | special form => exact absurd rfl hfunction
  | _ => simp only [trace, hhead, Option.bind_some, hresolve]

end Equations

/-- A conditional is reported first, and then what stands in its test and its clauses. -/
theorem reports_conditional {source : Source} {head : Expr} {args : List Expr}
    {operator : Symbol} (hhead : head.symbol? = some operator) (hif : operator.Denotes "if")
    (hargs : ∀ e ∈ args, Reports (e.compile .standard) (e.trace .standard) e.conditionals) :
    Reports ((Expr.list source (head :: args)).compile .standard)
      ((Expr.list source (head :: args)).trace .standard) (1 + conditionalsAll args) := by
  have hresolve := Environment.resolve?_conditional hif
  have hfailed {cause : CompileError}
      (hexpand : Conditional.expand source (head :: args) = .error cause) :
      Reports ((Expr.list source (head :: args)).compile .standard)
        ((Expr.list source (head :: args)).trace .standard) (1 + conditionalsAll args) := by
    rw [compile_special hhead hresolve, trace_special_error hhead hresolve hexpand]
    refine .cons (.failed ?_ List.nil_prefix)
    simp only [Conditional.specialForm, hexpand, error_bind]
    exact fun n h => by cases h
  cases hbind : Conditional.binder.bind (.list source (head :: args))
      (.record Conditional.parts.name) with
  | error cause => exact hfailed (Conditional.expand_of_error hbind)
  | ok v =>
    obtain ⟨_, _, test, rest, helems, -, rfl⟩ := Conditional.bind_parts hbind
    cases helems
    obtain ⟨htest, hrest⟩ := List.forall_mem_cons.1 hargs
    obtain ⟨c, htest', hrest', hc⟩ := Conditional.exists_expand hbind
    rw [← htest'] at htest
    rw [← hrest'] at hrest
    cases hx : c.expand source with
    | error cause => exact hfailed (hc.trans hx)
    | ok x =>
      have hexpand : Conditional.expand source (head :: test :: rest) = .ok x := hc.trans hx
      have hclauses := c.reports source htest hrest hx
      rw [htest', hrest', ← conditionalsAll_eq] at hclauses
      rw [compile_special hhead hresolve, trace_special_ok hhead hresolve hexpand]
      simp only [Conditional.specialForm, hexpand, ok_bind]
      exact hclauses.cons

/-- The compilation of an expression in the standard environment reports its conditional forms: all
of them if it succeeds, and otherwise the first ones. -/
theorem reports_compile (e : Expr) :
    Reports (e.compile .standard) (e.trace .standard) e.conditionals := by
  induction e with
  | atom source a =>
    rw [trace]
    exact .nothing _
  | list source es ih =>
    cases es with
    | nil =>
      rw [trace]
      exact .nothing _
    | cons head args =>
      obtain ⟨-, hargs⟩ := List.forall_mem_cons.1 ih
      cases hhead : head.symbol? with
      | none =>
        simp only [compile, trace, hhead, Option.bind_none]
        exact .failed (fun a h => by cases h) List.nil_prefix
      | some operator =>
        have hoperator : head.isOperator "if" = true ↔ operator.Denotes "if" := by
          rw [isOperator, hhead, Option.any_some, decide_eq_true_iff]
        by_cases hif : operator.Denotes "if"
        · rw [conditionals, if_pos (hoperator.2 hif)]
          exact reports_conditional hhead hif hargs
        · cases hresolve : Environment.standard.resolve? operator .both with
          | none =>
            simp only [compile, trace, hhead, Option.bind_some, hresolve]
            exact .failed (fun a h => by cases h) List.nil_prefix
          | some b =>
            rcases Environment.resolve?_standard hresolve with ⟨hdenotes, -⟩ | ⟨-, hfunction⟩
            · exact absurd (Symbol.denotes_iff.2 hdenotes) hif
            · rw [compile_function hhead hresolve hfunction,
                trace_function hhead hresolve hfunction, conditionals,
                if_neg (hif ∘ hoperator.1), Nat.zero_add]
              exact (reports_compileArgs hargs 0).map _

end Expr

end Formulary
