import Formulary.Expr.Message
import Formulary.Expr.Printer

/-!
# Programs

A program is a tree of constants, references to symbols, calls and conditionals. Every node may
carry the source context of the expression it was compiled from, which takes no part in the
equality of programs.
-/
namespace Formulary

inductive Node where
  | constant (source : Source) (value : Expr)
  | reference (source : Source) (symbol : Symbol)
  | call (source : Source) (function : Node) (args : List Node)
  | ifThen (source : Source) (test consequent : Node)
  | ifThenElse (source : Source) (test consequent alternative : Node)
deriving Inhabited

namespace Node

def source : Node → Source
  | .constant s _ => s
  | .reference s _ => s
  | .call s _ _ => s
  | .ifThen s _ _ => s
  | .ifThenElse s _ _ _ => s

def typeName : Node → String
  | .constant _ _ => "Constant"
  | .reference _ _ => "VariableRef"
  | .call _ _ _ => "FunctionCall"
  | .ifThen _ _ _ => "IfElse"
  | .ifThenElse _ _ _ _ => "IfElse"

mutual

/-- Equality of programs, whatever their source contexts. -/
def same : Node → Node → Bool
  | .constant _ a, .constant _ b => a.same b
  | .reference _ a, .reference _ b => a == b
  | .call _ f as, .call _ g bs => same f g && sameAll as bs
  | .ifThen _ t a, .ifThen _ u b => same t u && same a b
  | .ifThenElse _ t a b, .ifThenElse _ u c d => same t u && same a c && same b d
  | _, _ => false

def sameAll : List Node → List Node → Bool
  | [], [] => true
  | a :: as, b :: bs => same a b && sameAll as bs
  | _, _ => false

end

/-- The source context in full; one with an integer beyond the limit of digits cannot be shown by
the host. -/
def shownSource (source : Source) : String :=
  "source_context=" ++ (source.getD .null).display

mutual

def display : Node → String
  | .constant s v => "Constant(" ++ shownSource s ++ ", value=" ++ v.display ++ ")"
  | .reference s v => "VariableRef(" ++ shownSource s ++ ", symbol=" ++ v.display ++ ")"
  | .call s f as =>
    let args := match displayAll as with
      | [a] => "(" ++ a ++ ",)"
      | as => "(" ++ String.intercalate ", " as ++ ")"
    "FunctionCall(" ++ shownSource s ++ ", function=" ++ display f ++ ", args=" ++ args ++ ")"
  | .ifThen s t a =>
    "IfElse(" ++ shownSource s ++ ", test=" ++ display t ++ ", then=" ++ display a ++ ", else_=None)"
  | .ifThenElse s t a b =>
    "IfElse(" ++ shownSource s ++ ", test=" ++ display t ++ ", then=" ++ display a ++ ", else_=" ++
      display b ++ ")"

def displayAll : List Node → List String
  | [] => []
  | n :: ns => display n :: displayAll ns

end

end Node

end Formulary
