import Formulary.Native

/-!
# Faults of evaluation

An evaluation fails at a place, which is the nearest known source context. The message of the
failure begins with that place.
-/
namespace Formulary

inductive EvalFault where
  | unsupported (e : Expr)
  | emptyList
  | headNotSymbol (head : Expr)
  | unresolved (operator : Symbol)
  | argumentType (operator : String) (v : Native)
  /-- An integer is too large to become a double. -/
  | overflow
  | custom (message : String)

namespace EvalFault

/-- A fault that cannot be put into words, because an integer in the argument is beyond the limit of
digits, is reported as a fault of its value. -/
def kind : EvalFault → FailureKind
  | .unresolved _ => .resolution
  | .argumentType _ v => if v.within .standard then .argumentType else .value
  | .overflow => .overflow
  | _ => .evaluation

def message : EvalFault → String
  | .unsupported e => s!"unsupported expression: {e.text}"
  | .emptyList => "unsupported form: empty list"
  | .headNotSymbol head =>
    s!"first argument in an s-expression must be a symbol, got {head.text}"
  | .unresolved operator => s!"failed to resolve function {operator.text}"
  | .argumentType operator v => s!"invalid type for argument to {operator}: {v.display}"
  | .overflow => "int too large to convert to float"
  | .custom message => message

end EvalFault

/-- Where an evaluation stands: the nearest source context that is present. -/
structure Location where
  context : Message := .str ""
deriving Inhabited

namespace Location

def isKnown (l : Location) : Bool := l.context.isPresent

/-- Moves to an expression, if that says where it comes from. -/
def enter (l : Location) (source : Source) : Location :=
  match source with
  | some m => if m.isPresent then ⟨m⟩ else l
  | none => l

/-- Whether the place can be named: every integer in its source context keeps the limit of
digits. -/
def isWritable (l : Location) : Bool := l.context.within .standard

def mark (l : Location) (message : String) : String :=
  if l.isKnown then l.context.text ++ ": " ++ message else message

def display (l : Location) : String :=
  "EvalContext(" ++ (if l.isKnown then l.context.text else "<unknown>") ++ ")"

end Location

structure EvalError where
  location : Location
  fault : EvalFault

namespace EvalError

def kind (e : EvalError) : FailureKind := e.fault.kind

def message (e : EvalError) : String := e.location.mark e.fault.message

/-- The failure that callers see. Only the library's own faults are put into words, and where the
place cannot be named they are reported as faults of its value. -/
def failure (e : EvalError) : Failure :=
  if e.kind.isOwn then
    if e.location.isWritable then ⟨e.kind, some e.message⟩ else ⟨.value, none⟩
  else ⟨e.kind, none⟩

end EvalError

end Formulary
