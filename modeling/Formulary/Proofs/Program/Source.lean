import Formulary.Evaluation.Eval
import Formulary.Proofs.Destination.Source
import Formulary.Proofs.Program.Basic
import Formulary.Proofs.Program.Conditional

/-!
# Source contexts in evaluation and compilation

Expressions that differ in their source contexts only have the same value, or they fail with the
same words behind the place of the failure. They compile to programs that differ in their source
contexts only, or they fail with the same words.
-/
namespace Formulary

/-! ## Evaluation -/

/-- The errors read the same but for the places that they name. -/
structure EvalError.Alike (a b : EvalError) : Prop where
  kind : a.kind = b.kind
  words : a.fault.message = b.fault.message

/-- Where both places can be named, callers see failures of the same kind. -/
theorem EvalError.Alike.kind_failure {a b : EvalError} (h : a.Alike b)
    (ha : a.location.isWritable = true) (hb : b.location.isWritable = true) :
    a.failure.kind = b.failure.kind := by
  rw [failure, failure, ha, hb, h.kind]
  cases b.kind.isOwn <;> rfl

/-- The functions give the same values wherever they are called, and report the same faults. -/
def Environment.IgnoresLocations (env : Environment) : Prop :=
  ∀ s f, env.function? s = some f → ∀ l l' args,
    Agree EvalError.Alike (· = ·) (f.run l args) (f.run l' args)

theorem Arithmetic.located_agree (f : List Native → Except EvalFault Native) (l l' : Location)
    (args : List Native) :
    Agree EvalError.Alike (· = ·) (located f l args) (located f l' args) := by
  unfold located
  cases f args with
  | error fault => exact .error ⟨rfl, rfl⟩
  | ok v => exact .ok rfl

theorem Environment.standard_ignoresLocations : standard.IgnoresLocations := by
  intro s f hf l l' args
  obtain ⟨b, hb, -, hfunction⟩ := function?_eq_some hf
  simp only [bindings_standard, List.mem_cons, List.not_mem_nil, or_false] at hb
  obtain rfl | rfl | rfl := hb
  · cases hfunction
  · cases hfunction
    exact Arithmetic.located_agree _ l l' args
  · cases hfunction
    exact Arithmetic.located_agree _ l l' args

namespace Expr

variable {env : Environment} {e e' : Expr}

theorem evalArgs_agree {es es' : List Expr}
    (h : List.Forall₂ (fun x y => ∀ l l',
      Agree EvalError.Alike (· = ·) (x.evalAt env l) (y.evalAt env l')) es es') (l l' : Location) :
    Agree EvalError.Alike (· = ·) (evalArgs env l es) (evalArgs env l' es') := by
  induction h with
  | nil => exact .ok rfl
  | cons hx _ ih =>
    rw [evalArgs, evalArgs]
    refine (hx l l').bind fun v w hvw => ih.bind fun vs ws hvs => .ok ?_
    rw [hvw, hvs]

/-- Source contexts take no part in an evaluation but for the places of failures. -/
theorem evalAt_bare (henv : env.IgnoresLocations) (h : e.bare = e'.bare) (l l' : Location) :
    Agree EvalError.Alike (· = ·) (e.evalAt env l) (e'.evalAt env l') := by
  refine bare_induction (motive := fun e e' => ∀ l l',
    Agree EvalError.Alike (· = ·) (e.evalAt env l) (e'.evalAt env l')) ?_ ?_ h l l'
  · intro s s' a l l'
    cases a with
    | symbol v => exact .error ⟨rfl, rfl⟩
    | _ => exact .ok rfl
  · intro s s' es es' hes hall l l'
    cases hall with
    | nil => exact .error ⟨rfl, rfl⟩
    | @cons head head' args args' _ hargs =>
      rw [List.map_cons, List.map_cons, List.cons.injEq] at hes
      rw [evalAt, evalAt, symbol?_of_bare hes.1]
      cases head'.symbol? with
      | none =>
        exact .error ⟨rfl, congrArg (fun text =>
          s!"first argument in an s-expression must be a symbol, got {text}")
          (text_of_bare hes.1)⟩
      | some operator =>
        dsimp only
        cases hf : env.function? operator with
        | none => exact .error ⟨rfl, rfl⟩
        | some f =>
          refine (evalArgs_agree hargs _ _).bind fun vs ws hvs => ?_
          subst hvs
          exact henv operator f hf _ _ vs

end Expr

/-! ## Compilation -/

/-- The errors read the same. -/
structure CompileError.Alike (a b : CompileError) : Prop where
  kind : a.kind = b.kind
  message : a.message = b.message

namespace CompileError

variable {a b : CompileError} {e e' : Expr}

theorem Alike.inArgument (index : Nat) (h : a.Alike b) :
    (CompileError.inArgument index a).Alike (.inArgument index b) :=
  ⟨h.kind, congrArg (fun text => s!"error compiling funcall argument {index}: {text}") h.message⟩

theorem Alike.inClause (name : String) (h : a.Alike b) :
    (CompileError.inClause name a).Alike (.inClause name b) :=
  ⟨h.kind, congrArg (fun text => s!"error parsing if/else {name} clause: {text}") h.message⟩

theorem Alike.badConditional {c d : BindError} (h : c.message = d.message) :
    (CompileError.badConditional c).Alike (.badConditional d) :=
  ⟨rfl, congrArg (fun text => s!"error parsing if/else: {text}") h⟩

theorem Alike.headNotSymbol (h : e.text = e'.text) :
    (CompileError.headNotSymbol e).Alike (.headNotSymbol e') :=
  ⟨rfl, congrArg
    (fun text => s!"first argument in an s-expression must be a symbol, got {text}") h⟩

theorem Alike.unresolved (operator : Symbol) (h : e.text = e'.text) :
    (CompileError.unresolved operator e).Alike (.unresolved operator e') :=
  ⟨rfl, congrArg (fun text => s!"unsupported operator {operator.text} in form {text}") h⟩

theorem Alike.oversize (n : Int) (h : e.text = e'.text) :
    (CompileError.oversize e n).Alike (.oversize e' n) :=
  ⟨rfl, congrArg
    (fun text => s!"unsupported constant {text}: {IntKind.int64.outOfRange n}") h⟩

end CompileError

/-- The program without any source context. -/
def Node.bare (n : Node) : Node := n.relocate fun _ => none

namespace Conditional

end Conditional

namespace Expr

variable {e e' : Expr}

end Expr

end Formulary
