import Formulary.Expr.Basic

/-!
# Expressions as messages

The message of an expression is an object with one field, which is named by the kind and holds
the payload, and with the source context beside it if there is one.
-/
namespace Formulary

open Message (sourceKey soleKey? sourceOf)

namespace Atom

def payload : Atom → Message
  | .bool b => .bool b
  | .int _ n => .int n
  | .single x => .double (x.convert .double)
  | .double x => .double x
  | .bytes bs => .bytes bs
  | .string s => .str s
  | .symbol s => s.toMessage

def number (kind : Kind) : Message → Except MessageError Double
  | .int n =>
    match Binary.ofInt? .double n with
    | some x => .ok x
    | none => .error .tooLarge
  | .double x => .ok x
  | m => .error (.notNumber kind.name m)

/-- The atom of a kind other than `list` that a payload describes. -/
def ofPayload (kind : Kind) (m : Message) : Except MessageError Atom :=
  match kind, m with
  | .bool, .bool b => .ok (.bool b)
  | .bool, m => .error (.notBool m)
  | .int k, .int n => if k.contains n then .ok (.int k n) else .error (.outOfRange k n)
  | .int k, m => .error (.notInteger k m)
  | .single, m => (number .single m).map fun x => .single (x.convert .single)
  | .double, m => (number .double m).map .double
  | .bytes, .bytes bs => .ok (.bytes bs)
  | .bytes, m => .error (.notBytes m)
  | .string, .str s => .ok (.string s)
  | .string, m => .error (.notText m)
  | .symbol, m => (Symbol.ofMessage m).map .symbol
  | .list, m => .error (.listNotObject m)

end Atom

namespace Expr

/-- An object whose payload stands under the kind, with the source context if it is wanted. -/
def envelope (kind : String) (payload : Message) (source : Source) (sourced : Bool) : Message :=
  .object ((kind, payload) :: match source, sourced with
    | some m, true => [(sourceKey, m)]
    | _, _ => [])

mutual

def toMessage (sourced : Bool) : Expr → Message
  | .atom source a => envelope a.kind.name a.payload source sourced
  | .list source es =>
    envelope Kind.list.name (.object [("elements", .list (toMessages sourced es))]) source
      sourced

def toMessages (sourced : Bool) : List Expr → List Message
  | [] => []
  | e :: es => toMessage sourced e :: toMessages sourced es

end

/-- The kind named by the only field besides the source context. -/
def soleKind? (fields : List (String × Message)) : Option Kind :=
  (soleKey? fields).bind Kind.ofName?

mutual

def ofMessage : Message → Except MessageError Expr
  | .object fields =>
    match soleKind? fields with
    | some kind => ofField kind (sourceOf fields) fields
    | none => .error (.unknownExpr (.object fields))
  | m => .error (.exprNotObject m)

/-- Finds the field of the kind and decodes its payload. -/
def ofField (kind : Kind) (source : Source) : List (String × Message) → Except MessageError Expr
  | [] => .error (.unknownExpr (.object []))
  | (key, m) :: fields =>
    if key = kind.name then ofPayload kind source m else ofField kind source fields

def ofPayload (kind : Kind) (source : Source) : Message → Except MessageError Expr
  | .object fields =>
    if kind = .list then (ofElements fields).map (.list source)
    else (Atom.ofPayload kind (.object fields)).map (.atom source)
  | m => (Atom.ofPayload kind m).map (.atom source)

/-- The elements of a list message; there are none if the field is missing. -/
def ofElements : List (String × Message) → Except MessageError (List Expr)
  | [] => .ok []
  | (key, m) :: fields => if key = "elements" then ofItems m else ofElements fields

def ofItems : Message → Except MessageError (List Expr)
  | .list items => ofMessages 0 items
  | m => .error (.elementsNotList m)

/-- Decodes the elements from the given index on; a fault is placed at its element. -/
def ofMessages (index : Nat) : List Message → Except MessageError (List Expr)
  | [] => .ok []
  | m :: ms =>
    match ofMessage m with
    | .error e => .error (e.atElement index)
    | .ok e => (ofMessages (index + 1) ms).map (e :: ·)

end

def load (text : String) : Except MessageError Expr :=
  Message.load text >>= ofMessage

/-- Equality of expressions: the messages without source contexts agree. -/
def same (a b : Expr) : Bool :=
  (a.toMessage false).same (b.toMessage false)

def sameAll : List Expr → List Expr → Bool
  | [], [] => true
  | a :: as, b :: bs => a.same b && sameAll as bs
  | _, _ => false

end Expr

end Formulary
