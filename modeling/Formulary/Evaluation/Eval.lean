import Formulary.Environment

/-!
# Evaluation

Scalars evaluate to their values. A list must start with a symbol that means a function; its
arguments are evaluated from left to right and the function is applied to their values.
-/
namespace Formulary

namespace Expr

mutual

/-- The value of an expression that stands at the given location. -/
def evalAt (env : Environment) (l : Location) : Expr → Except EvalError Native
  | .atom source (.symbol s) =>
    .error ⟨l.enter source, .unsupported (.atom source (.symbol s))⟩
  | .atom _ a => .ok a.native
  | .list source [] => .error ⟨l.enter source, .emptyList⟩
  | .list source (head :: args) =>
    match head.symbol? with
    | none => .error ⟨l.enter source, .headNotSymbol head⟩
    | some operator =>
      match env.function? operator with
      | none => .error ⟨l.enter source, .unresolved operator⟩
      | some f => do
        let values ← evalArgs env (l.enter source) args
        f.run (l.enter source) values

/-- The values of the arguments, from left to right. -/
def evalArgs (env : Environment) (l : Location) : List Expr → Except EvalError (List Native)
  | [] => .ok []
  | e :: es => do
    let v ← evalAt env l e
    let vs ← evalArgs env l es
    return v :: vs

end

def eval (env : Environment) (e : Expr) : Except EvalError Native := e.evalAt env {}

end Expr

end Formulary
