/-!
# Kinds of failure

Every failure belongs to a kind, whose name is what callers see. The first ten kinds are the
library's own and always come with a message; the others are faults of a value that was handed
in, and carry a message only where the library has one to give.
-/
namespace Formulary

inductive FailureKind where
  | reading
  | parsing
  | wireFormat
  | binding
  | shape
  | resolution
  | compilation
  | arity
  | evaluation
  | argumentType
  | type
  | overflow
  | value
  | index
  | attribute
  | missingFile
  | recursion
deriving DecidableEq, Repr

namespace FailureKind

def name : FailureKind → String
  | .reading => "ExprSyntaxError"
  | .parsing => "ExprParseError"
  | .wireFormat => "WireFormatError"
  | .binding => "BindError"
  | .shape => "BindShapeError"
  | .resolution => "ResolutionError"
  | .compilation => "CompileError"
  | .arity => "ArityError"
  | .evaluation => "EvalError"
  | .argumentType => "ExprTypeError"
  | .type => "TypeError"
  | .overflow => "OverflowError"
  | .value => "ValueError"
  | .index => "IndexError"
  | .attribute => "AttributeError"
  | .missingFile => "FileNotFoundError"
  | .recursion => "RecursionError"

/-- The kinds that the library itself reports; the others pass through every handler. -/
def isOwn : FailureKind → Bool
  | .type | .overflow | .value | .index | .attribute | .missingFile | .recursion => false
  | _ => true

end FailureKind

structure Failure where
  kind : FailureKind
  message? : Option String
deriving DecidableEq, Repr

end Formulary
