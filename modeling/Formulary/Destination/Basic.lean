import Formulary.Text.Quoted

/-!
# Destination types

A destination type says what an expression is to be bound to. Classes stand for themselves;
sequences, tuples, unions and mappings take arguments; records are named. Some types can be
spelled in more than one way, and the spelling is kept because error messages show it. A union
holds at least two different members, none of which is a union itself.
-/
namespace Formulary

inductive Plain where
  | string | int | float | bool | bytes | list | tuple | mapping | object | complex | none
  | symbol | exprs | expr | single
deriving DecidableEq, Repr

inductive SequenceStyle where
  | list | genericList | sequence | abstractSequence
deriving DecidableEq, Repr

/-- The styles that can be spelled without an argument. -/
inductive BareStyle where
  | genericList | sequence
deriving DecidableEq, Repr

inductive UnionStyle where
  | named | piped
deriving DecidableEq, Repr

inductive Destination where
  | plain (c : Plain)
  | any
  | record (name : String)
  | sequence (style : SequenceStyle) (elem : Destination)
  | bareSequence (style : BareStyle)
  /-- Tuples of any length with elements of one type. -/
  | tuples (elem : Destination)
  | tuple (elems : List Destination)
  | bareTuple
  | union (style : UnionStyle) (members : List Destination)
  | mapping (key value : Destination)
  /-- Integers with a changeable note attached, by which nothing can be looked up. -/
  | annotated
deriving Inhabited

namespace Plain

def name : Plain → String
  | .string => "str"
  | .int => "int"
  | .float => "float"
  | .bool => "bool"
  | .bytes => "bytes"
  | .list => "list"
  | .tuple => "tuple"
  | .mapping => "dict"
  | .object => "object"
  | .complex => "complex"
  | .none => "NoneType"
  | .symbol => "Symbol"
  | .exprs => "ExprList"
  | .expr => "Expression"
  | .single => "float32"

/-- The module in front of the name of a class that is not built in. -/
def qualifier : Plain → String
  | .symbol => "exprlang.types.symbol."
  | .exprs | .expr => "exprlang.types.expression."
  | .single => "numpy."
  | _ => ""

def qualified (c : Plain) : String := c.qualifier ++ c.name

end Plain

namespace SequenceStyle

def spelling : SequenceStyle → String
  | .list => "list"
  | .genericList => "typing.List"
  | .sequence => "typing.Sequence"
  | .abstractSequence => "collections.abc.Sequence"

end SequenceStyle

/-- The style of the same name that takes an argument. -/
def BareStyle.full : BareStyle → SequenceStyle
  | .genericList => .genericList
  | .sequence => .sequence

namespace Destination

mutual

def size : Destination → Nat
  | .sequence _ t => 1 + size t
  | .tuples t => 1 + size t
  | .tuple ts => 1 + sizeAll ts
  | .union _ ts => 1 + sizeAll ts
  | .mapping k v => 1 + size k + size v
  | _ => 1

def sizeAll : List Destination → Nat
  | [] => 0
  | t :: ts => size t + sizeAll ts

end

mutual

/-- Equality of types: spelling and order of unions do not count. -/
def same : Destination → Destination → Bool
  | .plain a, .plain b => a == b
  | .any, .any => true
  | .record a, .record b => a == b
  | .sequence r a, .sequence s b => r == s && same a b
  | .bareSequence r, .bareSequence s => r == s
  | .tuples a, .tuples b => same a b
  | .tuple as, .tuple bs => sameAll as bs
  | .bareTuple, .bareTuple => true
  | .union _ as, .union _ bs => within as bs && bs.all (covers as)
  | .mapping k v, .mapping l w => same k l && same v w
  | .annotated, .annotated => true
  | _, _ => false

def sameAll : List Destination → List Destination → Bool
  | [], [] => true
  | a :: as, b :: bs => same a b && sameAll as bs
  | _, _ => false

def within : List Destination → List Destination → Bool
  | [], _ => true
  | a :: as, bs => bs.any (same a) && within as bs

def covers : List Destination → Destination → Bool
  | [], _ => false
  | a :: as, b => same a b || covers as b

end

mutual

/-- Whether a custom binder can be registered for the type. -/
def isKey : Destination → Bool
  | .annotated => false
  | .sequence _ t => isKey t
  | .tuples t => isKey t
  | .tuple ts => areKeys ts
  | .union _ ts => areKeys ts
  | .mapping k v => isKey k && isKey v
  | _ => true

def areKeys : List Destination → Bool
  | [] => true
  | t :: ts => isKey t && areKeys ts

end

mutual

def records : Destination → List String
  | .record name => [name]
  | .sequence _ t => records t
  | .tuples t => records t
  | .tuple ts => recordsAll ts
  | .union _ ts => recordsAll ts
  | .mapping k v => records k ++ records v
  | _ => []

def recordsAll : List Destination → List String
  | [] => []
  | t :: ts => records t ++ recordsAll ts

end

/-! ## Unions -/

def members : Destination → List Destination
  | .union _ ts => ts
  | t => [t]

def distinct : List Destination → List Destination
  | [] => []
  | t :: ts => t :: (distinct ts).filter fun u => !same t u

/-- The union of some types: a single type is its own union. -/
def unionOf (style : UnionStyle) (ts : List Destination) : Destination :=
  match distinct (ts.flatMap members) with
  | [t] => t
  | ts => .union style ts

/-- Whether the union of the type with another can be spelled with a bar. -/
def isPipeable : Destination → Bool
  | .bareSequence _ | .bareTuple | .annotated => false
  | .sequence .genericList _ | .sequence .sequence _ => false
  | .union .named _ => false
  | _ => true

/-- The union spelled `a | b`; a part that does not take the bar makes it a named one. -/
def pipe (a b : Destination) : Destination :=
  unionOf (if a.isPipeable && b.isPipeable then .piped else .named) [a, b]

def pipeAll : List Destination → Destination
  | [] => .plain .none
  | t :: ts => ts.foldl pipe t

def optional (t : Destination) : Destination := unionOf .named [t, .plain .none]

theorem optional_expr :
    optional (.plain .expr) = .union .named [.plain .expr, .plain .none] := by
  simp [optional, unionOf, members, distinct, same]

def isNone : Destination → Bool
  | .plain .none => true
  | _ => false

/-- The other member of a union of two types, one of which is the type of the absent value. -/
def optionalTarget? : Destination → Option Destination
  | .union _ [a, b] => if b.isNone then some a else if a.isNone then some b else none
  | _ => none

/-! ## Notes -/

mutual

/-- The type without notes; members of a union that differ only by their notes become one. -/
def plainly : Destination → Destination
  | .annotated => .plain .int
  | .sequence s t => .sequence s (plainly t)
  | .tuples t => .tuples (plainly t)
  | .tuple ts => .tuple (plainlyAll ts)
  | .union s ts => unionOf s (plainlyAll ts)
  | .mapping k v => .mapping (plainly k) (plainly v)
  | t => t

def plainlyAll : List Destination → List Destination
  | [] => []
  | t :: ts => plainly t :: plainlyAll ts

end

/-! ## Text -/

def joined (separator : String) (parts : List String) : String := String.intercalate separator parts

mutual

/-- The type as it stands inside another one. -/
def inner : Destination → String
  | .plain c => c.qualified
  | .any => "typing.Any"
  | .record name => "shapes." ++ name
  | .sequence style t => style.spelling ++ "[" ++ inner t ++ "]"
  | .bareSequence style => style.full.spelling
  | .tuples t => "tuple[" ++ inner t ++ ", ...]"
  | .tuple [] => "tuple[()]"
  | .tuple ts => "tuple[" ++ joined ", " (innerAll ts) ++ "]"
  | .bareTuple => "typing.Tuple"
  | .union .piped ts => joined " | " (pipedAll ts)
  | .union .named ts =>
    match ts, innerAll ts with
    | [a, b], [s, t] =>
      if a.isNone then "typing.Optional[" ++ t ++ "]"
      else if b.isNone then "typing.Optional[" ++ s ++ "]"
      else "typing.Union[" ++ s ++ ", " ++ t ++ "]"
    | _, parts => "typing.Union[" ++ joined ", " parts ++ "]"
  | .mapping k v => "dict[" ++ inner k ++ ", " ++ inner v ++ "]"
  | .annotated => "typing.Annotated[int, []]"

def innerAll : List Destination → List String
  | [] => []
  | t :: ts => inner t :: innerAll ts

/-- Between bars the type of the absent value is spelled as the value. -/
def pipedAll : List Destination → List String
  | [] => []
  | t :: ts => (if t.isNone then "None" else inner t) :: pipedAll ts

end

/-- The type as error messages name it: a class goes by its name alone. -/
def name : Destination → String
  | .plain c => c.name
  | .any => "Any"
  | .record name => name
  | t => t.inner

def quotedName (t : Destination) : String := String.ofList (Text.quoted t.name.toList)

/-- The type as a value shows it: a class is marked as one. -/
def display : Destination → String
  | .plain c => "<class '" ++ c.qualified ++ "'>"
  | .record name => "<class 'shapes." ++ name ++ "'>"
  | t => t.inner

end Destination

end Formulary
