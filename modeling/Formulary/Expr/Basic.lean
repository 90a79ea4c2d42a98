import Formulary.Symbol

/-!
# Expressions

An expression is an atom or a list of expressions. Every node may carry a source context, which
says where it comes from: the reader gives a position, a message may give any value. Source
contexts take no part in the equality of expressions.
-/
namespace Formulary

abbrev Source := Option Message

inductive Atom where
  | bool (b : Bool)
  | int (kind : IntKind) (n : Int)
  | single (x : Single)
  | double (x : Double)
  | bytes (bs : List UInt8)
  | string (s : String)
  | symbol (s : Symbol)
deriving DecidableEq

inductive Expr where
  | atom (source : Source) (a : Atom)
  | list (source : Source) (elems : List Expr)
deriving Inhabited

/-- The kinds of expressions; a message names the kind of the expression that it holds. -/
inductive Kind where
  | bool
  | int (kind : IntKind)
  | single
  | double
  | bytes
  | string
  | symbol
  | list
deriving DecidableEq, Repr

namespace Kind

def all : List Kind :=
  .bool :: IntKind.all.map .int ++ [.single, .double, .bytes, .string, .symbol, .list]

def name : Kind → String
  | .bool => "bool"
  | .int k => k.name
  | .single => "float"
  | .double => "double"
  | .bytes => "bytes"
  | .string => "string"
  | .symbol => "symbol"
  | .list => "list"

def ofName? (name : String) : Option Kind :=
  all.find? (·.name == name)

end Kind

namespace Atom

def kind : Atom → Kind
  | .bool _ => .bool
  | .int k _ => .int k
  | .single _ => .single
  | .double _ => .double
  | .bytes _ => .bytes
  | .string _ => .string
  | .symbol _ => .symbol

/-- An integer lies within its kind. -/
def WellFormed : Atom → Prop
  | .int k n => k.contains n = true
  | _ => True

end Atom

namespace Expr

def kind : Expr → Kind
  | .atom _ a => a.kind
  | .list _ _ => .list

def source : Expr → Source
  | .atom s _ => s
  | .list s _ => s

def withSource (source : Source) : Expr → Expr
  | .atom _ a => .atom source a
  | .list _ es => .list source es

def symbol? : Expr → Option Symbol
  | .atom _ (.symbol s) => some s
  | _ => none

def elems? : Expr → Option (List Expr)
  | .list _ es => some es
  | _ => none

/-- Scalars are the expressions that are neither symbols nor lists. -/
def isScalar : Expr → Bool
  | .atom _ (.symbol _) => false
  | .atom _ _ => true
  | .list _ _ => false

mutual

/-- The same expression without any source context. -/
def bare : Expr → Expr
  | .atom _ a => .atom none a
  | .list _ es => .list none (bareAll es)

def bareAll : List Expr → List Expr
  | [] => []
  | e :: es => bare e :: bareAll es

end

mutual

def size : Expr → Nat
  | .atom _ _ => 1
  | .list _ es => 1 + sizeAll es

def sizeAll : List Expr → Nat
  | [] => 0
  | e :: es => size e + sizeAll es

end

theorem size_pos (e : Expr) : 0 < e.size := by
  cases e <;> simp only [size] <;> omega

theorem size_lt_of_mem {e : Expr} {es : List Expr} (h : e ∈ es) (s : Source) :
    e.size < (list s es).size := by
  have hle : e.size ≤ sizeAll es := by
    induction es with
    | nil => cases h
    | cons d ds ih =>
      rw [sizeAll]
      rcases List.mem_cons.1 h with rfl | h
      · omega
      · have := ih h
        omega
  rw [size]
  omega

mutual

/-- Every integer, at any depth, lies within its kind. -/
def WellFormed : Expr → Prop
  | .atom _ a => a.WellFormed
  | .list _ es => WellFormedAll es

def WellFormedAll : List Expr → Prop
  | [] => True
  | e :: es => WellFormed e ∧ WellFormedAll es

end

end Expr

end Formulary
