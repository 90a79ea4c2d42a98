import Formulary.Destination.Bind
import Formulary.Program.Node

/-!
# Faults of compilation

A fault keeps its kind through every level at which it is wrapped, and its message names the
argument or the clause at each level.
-/
namespace Formulary

inductive CompileError where
  | emptyList
  | headNotSymbol (head : Expr)
  | unresolved (operator : Symbol) (form : Expr)
  /-- A constant does not fit into 64 bits. -/
  | oversize (form : Expr) (n : Int)
  | inArgument (index : Nat) (cause : CompileError)
  | badConditional (cause : BindError)
  | noConsequent
  | extraClause
  | inClause (name : String) (cause : CompileError)
  | custom (message : String)

namespace CompileError

def kind : CompileError → FailureKind
  | .unresolved _ _ => .resolution
  | .inArgument _ cause => cause.kind
  | .inClause _ cause => cause.kind
  | .noConsequent | .extraClause => .arity
  | _ => .compilation

def message : CompileError → String
  | .emptyList => "unsupported form: empty list"
  | .headNotSymbol head =>
    s!"first argument in an s-expression must be a symbol, got {head.text}"
  | .unresolved operator form => s!"unsupported operator {operator.text} in form {form.text}"
  | .oversize form n => s!"unsupported constant {form.text}: {IntKind.int64.outOfRange n}"
  | .inArgument index cause => s!"error compiling funcall argument {index}: {cause.message}"
  | .badConditional cause => s!"error parsing if/else: {cause.message}"
  | .noConsequent => "error parsing if/else: must have a THEN form"
  | .extraClause => "error parsing if/else: must have only a THEN and ELSE form"
  | .inClause name cause => s!"error parsing if/else {name} clause: {cause.message}"
  | .custom message => message

def failure (e : CompileError) : Failure := ⟨e.kind, some e.message⟩

end CompileError

end Formulary
