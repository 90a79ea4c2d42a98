import Formulary.Environment

/-!
# Compilation

Scalars become constants, symbols become references, and a list is compiled according to what its
first element means: a special form expands itself, and a function becomes a call. Integers of
every kind become 64-bit ones.
-/
namespace Formulary

/-- Carries out an expansion, given the programs of the smaller expressions. -/
def Expansion.run {size : Nat} (compiled : (e : Expr) → e.size < size → Except CompileError Node) :
    Expansion size → Except CompileError Node
  | .done node => .ok node
  | .clause name e smaller next =>
    match compiled e smaller with
    | .error cause => .error (.inClause name cause)
    | .ok node => (next node).run compiled

namespace Expr

/-- The constant that an atom other than a symbol becomes. -/
def constant (source : Source) : Atom → Except CompileError Node
  | .int kind n =>
    if IntKind.int64.contains n then .ok (.constant source (.atom none (.int .int64 n)))
    else .error (.oversize (.atom source (.int kind n)) n)
  | a => .ok (.constant source (.atom none a))

mutual

def compile (env : Environment) : Expr → Except CompileError Node
  | .atom source (.symbol s) => .ok (.reference source s)
  | .atom source a => constant source a
  | .list _ [] => .error .emptyList
  | .list source (head :: args) =>
    match head.symbol? with
    | none => .error (.headNotSymbol head)
    | some operator =>
      match env.resolve? operator .both with
      | none => .error (.unresolved operator (.list source (head :: args)))
      | some ⟨_, .special form⟩ =>
        match form.expand source (head :: args) with
        | .error e => .error e
        | .ok expansion => expansion.run fun e _ => compile env e
      | some _ => do
        let nodes ← compileArgs env 0 args
        return .call source (.reference head.source operator) nodes
termination_by e => 2 * e.size
decreasing_by
  · omega
  · simp only [size, sizeAll]
    omega

def compileArgs (env : Environment) (index : Nat) : List Expr → Except CompileError (List Node)
  | [] => .ok []
  | e :: es =>
    match compile env e with
    | .error cause => .error (.inArgument index cause)
    | .ok node => (compileArgs env (index + 1) es).map (node :: ·)
termination_by es => 2 * sizeAll es + 1
decreasing_by
  · simp only [sizeAll]
    omega
  · have := e.size_pos
    simp only [sizeAll]
    omega

end

@[simp] theorem compile_symbol (env : Environment) (source : Source) (s : Symbol) :
    compile env (.atom source (.symbol s)) = .ok (.reference source s) := by
  rw [compile]

theorem compile_scalar (env : Environment) (source : Source) {a : Atom}
    (h : ∀ s, a ≠ .symbol s) : compile env (.atom source a) = constant source a := by
  rw [compile]
  exact h

/-- A symbol becomes a reference, and any other atom a constant. -/
theorem compile_atom (env : Environment) (source : Source) (a : Atom) :
    (∃ s, a = .symbol s ∧ compile env (.atom source a) = .ok (.reference source s)) ∨
      (∀ s, a ≠ .symbol s) ∧ compile env (.atom source a) = constant source a := by
  cases a with
  | symbol s => exact .inl ⟨s, rfl, compile_symbol env source s⟩
  | _ => exact .inr ⟨by simp, compile_scalar env source (by simp)⟩

@[simp] theorem compile_nil (env : Environment) (source : Source) :
    compile env (.list source []) = .error .emptyList := by
  rw [compile]

@[simp] theorem compileArgs_nil (env : Environment) (index : Nat) :
    compileArgs env index [] = .ok [] := by
  rw [compileArgs]

end Expr

end Formulary
