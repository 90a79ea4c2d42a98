import Formulary.Program.Compile

/-!
# The special forms that a compilation meets

A compilation can report every special form at the moment it begins to expand it. The report of a
compilation that fails ends with the form in which it fails.
-/
namespace Formulary

/-- What an expansion reports, given the programs and the reports of the smaller expressions. -/
def Expansion.trace {size : Nat} (compiled : Expr → Except CompileError Node)
    (traced : (e : Expr) → e.size < size → List Symbol) : Expansion size → List Symbol
  | .done _ => []
  | .clause _ e smaller next =>
    traced e smaller ++
      match compiled e with
      | .error _ => []
      | .ok node => (next node).trace compiled traced

namespace Expr

mutual

/-- The symbols of the special forms that are expanded while the expression is compiled. -/
def trace (env : Environment) : Expr → List Symbol
  | .atom _ _ => []
  | .list _ [] => []
  | .list source (head :: args) =>
    match head.symbol?.bind (env.resolve? · .both) with
    | none => []
    | some ⟨symbol, .special form⟩ =>
      symbol ::
        match form.expand source (head :: args) with
        | .error _ => []
        | .ok expansion => expansion.trace (compile env) fun e _ => trace env e
    | some _ => traceArgs env args
termination_by e => 2 * e.size
decreasing_by
  · omega
  · simp only [size, sizeAll]
    omega

/-- What the compilation of the arguments reports, up to the first that fails. -/
def traceArgs (env : Environment) : List Expr → List Symbol
  | [] => []
  | e :: es =>
    trace env e ++
      match compile env e with
      | .error _ => []
      | .ok _ => traceArgs env es
termination_by es => 2 * sizeAll es + 1
decreasing_by
  · simp only [sizeAll]
    omega
  · have := e.size_pos
    simp only [sizeAll]
    omega

end

end Expr

end Formulary
