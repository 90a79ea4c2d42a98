import Formulary.Evaluation.Error
import Formulary.Program.Error

/-!
# Environments

An environment is a stack of bindings of symbols to functions and special forms. Extending it
puts a binding on top and changes nothing below, and a symbol means the newest binding of the
kind that is asked for. Symbols without namespace are bound and looked up in that of formulas.
-/
namespace Formulary

structure FunctionDef where
  name : Symbol
  label : String
  /-- The value for some arguments; the location is where an error would be reported. -/
  run : Location → List Native → Except EvalError Native

/-- How a special form of some size becomes a program: expressions inside it, which are smaller, are
compiled as named clauses, one after the other, until the node is there. -/
inductive Expansion (size : Nat) where
  | done (node : Node)
  | clause (name : String) (e : Expr) (smaller : e.size < size) (next : Node → Expansion size)

structure SpecialForm where
  name : Symbol
  label : String
  expand : (source : Source) → (elems : List Expr) →
    Except CompileError (Expansion (Expr.list source elems).size)

inductive BindingKind where
  | function
  | special
  | both
deriving DecidableEq, Repr

namespace BindingKind

def name : BindingKind → String
  | .function => "function"
  | .special => "special_form"
  | .both => "function|special_form"

def meets : BindingKind → BindingKind → Bool
  | .function, .special => false
  | .special, .function => false
  | _, _ => true

end BindingKind

/-- What a symbol is bound to. A function may be bound under both kinds and is then found by
either, but it is always compiled as a function. -/
inductive Meaning where
  | function (f : FunctionDef)
  | special (s : SpecialForm)
  | both (f : FunctionDef)

namespace Meaning

def kind : Meaning → BindingKind
  | .function _ => .function
  | .special _ => .special
  | .both _ => .both

def label : Meaning → String
  | .function f => f.label
  | .special s => s.label
  | .both f => f.label

def function? : Meaning → Option FunctionDef
  | .function f => some f
  | .both f => some f
  | .special _ => none

end Meaning

structure Binding where
  symbol : Symbol
  meaning : Meaning

namespace Binding

def normalize (b : Binding) : Binding := { b with symbol := b.symbol.normalize }

def ofFunction (f : FunctionDef) : Binding := ⟨f.name, .function f⟩

def ofSpecial (s : SpecialForm) : Binding := ⟨s.name, .special s⟩

end Binding

structure Environment where
  /-- The bindings, the newest first. -/
  bindings : List Binding := []
  depth : Nat := 0

namespace Environment

def empty : Environment := {}

/-- A single link: a binding as it stands on top of an environment. Without an environment below
nothing has been extended yet. -/
def link (binding? : Option Binding) (parent? : Option Environment) : Environment :=
  match parent? with
  | none => ⟨binding?.toList, 0⟩
  | some parent => ⟨binding?.toList ++ parent.bindings, parent.depth + binding?.toList.length⟩

def bind (env : Environment) (b : Binding) : Environment := link (some b.normalize) (some env)

def bindAll (env : Environment) (bs : List Binding) : Environment := bs.foldl bind env

def define (env : Environment) (f : FunctionDef) : Environment := env.bind (.ofFunction f)

def defineSpecial (env : Environment) (s : SpecialForm) : Environment := env.bind (.ofSpecial s)

/-- An environment with some functions and, above them, some special forms. -/
def ofDefs (functions : List FunctionDef) (specials : List SpecialForm) : Environment :=
  (empty.bindAll (functions.map .ofFunction)).bindAll (specials.map .ofSpecial)

/-- The newest binding of a symbol that meets the kind. -/
def resolve? (env : Environment) (s : Symbol) (kind : BindingKind) : Option Binding :=
  env.bindings.find? fun b => b.symbol == s.normalize && b.meaning.kind.meets kind

def function? (env : Environment) (s : Symbol) : Option FunctionDef :=
  (env.resolve? s .function).bind (·.meaning.function?)

/-- The bindings with their kinds, the newest first. -/
def text (env : Environment) : String :=
  let parts := env.bindings.map fun b => b.symbol.text ++ ": " ++ b.meaning.kind.name
  "\x7b" ++ String.intercalate ", " parts ++ "\x7d"

def display (env : Environment) : String := s!"<LexicalEnvironment {env.depth} bindings>"

end Environment

end Formulary
