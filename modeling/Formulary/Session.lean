import Formulary.Evaluation.Arithmetic
import Formulary.Evaluation.Eval
import Formulary.Expr.Parser
import Formulary.Program.Compile
import Formulary.Program.Conditional

/-!
# Sessions

A session evaluates or compiles the forms of a source text one after the other in its
environment, which may grow. Each form is dealt with before the next one is read, so the first
failure in the order of the text is the one that is reported. The standard environment has
addition, subtraction and the conditional, in this order.
-/
namespace Formulary

def Environment.standard : Environment := ofDefs Arithmetic.functions [Conditional.specialForm]

structure Session where
  env : Environment := .standard
  file : String := ""

/-- What the forms of a text give: nothing, the one result, or all results in order. -/
inductive Outcome (α : Type) where
  | nothing
  | one (a : α)
  | many (as : List α)

namespace Outcome

def ofList {α : Type} : List α → Outcome α
  | [] => .nothing
  | [a] => .one a
  | as => .many as

def toList {α : Type} : Outcome α → List α
  | .nothing => []
  | .one a => [a]
  | .many as => as

theorem toList_ofList {α : Type} (as : List α) : (ofList as).toList = as := by
  match as with
  | [] => rfl
  | [_] => rfl
  | _ :: _ :: _ => rfl

end Outcome

namespace Session

def define (s : Session) (f : FunctionDef) : Session := { s with env := s.env.define f }

/-- Takes a step with every form of a text. -/
def run {α : Type} (s : Session) (step : Expr → Except Failure α) (code : List Char) :
    Except Failure (Outcome α) := do
  let (forms, fault?) := Expr.parseAll s.file code
  let results ← forms.mapM step
  match fault? with
  | some fault => .error fault
  | none => .ok (.ofList results)

def eval (s : Session) : List Char → Except Failure (Outcome Native) :=
  s.run fun e => (e.eval s.env).mapError (·.failure)

def compile (s : Session) : List Char → Except Failure (Outcome Node) :=
  s.run fun e => (e.compile s.env).mapError (·.failure)

end Session

end Formulary
