import Formulary.Program.Node

/-!
# Programs as messages

The message of a node is an object with one field, named by the kind of node, and with the source
context beside it, wrapped in an object of its own. The expressions inside constants are written
without source contexts.
-/
namespace Formulary.Node

open Message (sourceKey soleKey?)

/-- An object with the body under the kind, and the source context if it is wanted. -/
def envelope (sourced : Bool) (source : Source) (kind : String) (body : List (String × Message)) :
    Message :=
  .object ((match source, sourced with
    | some m, true => [(sourceKey, .object [("context", m)])]
    | _, _ => []) ++ [(kind, .object body)])

mutual

def toMessage (sourced : Bool) : Node → Message
  | .constant s v => envelope sourced s "constant" [("value", v.toMessage false)]
  | .reference s v => envelope sourced s "variable" [("symbol", v.toMessage)]
  | .call s f as =>
    envelope sourced s "funcall"
      [("function", toMessage sourced f), ("positional_args", .list (toMessages sourced as))]
  | .ifThen s t a =>
    envelope sourced s "if_else"
      [("test", toMessage sourced t), ("then_expression", toMessage sourced a)]
  | .ifThenElse s t a b =>
    envelope sourced s "if_else"
      [("test", toMessage sourced t), ("then_expression", toMessage sourced a),
        ("else_expression", toMessage sourced b)]

def toMessages (sourced : Bool) : List Node → List Message
  | [] => []
  | n :: ns => toMessage sourced n :: toMessages sourced ns

end

/-! ## Reading -/

inductive BodyKind where
  | constant | reference | call | conditional
deriving DecidableEq, Repr

def BodyKind.name : BodyKind → String
  | .constant => "constant"
  | .reference => "variable"
  | .call => "funcall"
  | .conditional => "if_else"

def BodyKind.ofName? (name : String) : Option BodyKind :=
  [BodyKind.constant, .reference, .call, .conditional].find? (·.name == name)

inductive BodyFault where
  | missing (part : String)
  /-- The body or its list of arguments has no parts at all. -/
  | broken
  | inside (e : MessageError)

/-- A body that cannot be taken apart is reported whole; so is one with a part whose source
context cannot be taken apart. -/
def BodyFault.error (kind : BodyKind) (body : Message) : BodyFault → MessageError
  | .missing part => .malformed kind.name body (some part)
  | .broken => .malformed kind.name body none
  | .inside .contextNotObject => .malformed kind.name body none
  | .inside e => e

/-- The source context of a node: absent if its wrapping is, and else the wrapped value. -/
def contextOf (fields : List (String × Message)) : Except MessageError Source :=
  match fields.lookup sourceKey with
  | none => .ok none
  | some (.object inner) =>
    match inner.lookup "context" with
    | none | some .null => .ok none
    | some m => .ok (some m)
  | some m => if m.isPresent then .error .contextNotObject else .ok none

/-- The first part of a value that is gone through in place of a list of nodes; none of those is
a node. -/
def firstPart? : Message → Option (Option Message)
  | .str s => some (s.toList.head?.map fun c => .str (String.singleton c))
  | .object fields => some (fields.head?.map fun f => .str f.1)
  | .bytes bs => some (bs.head?.map fun b => .int b.toNat)
  | _ => none

def inside {α : Type} : Except MessageError α → Except BodyFault α := Except.mapError .inside

mutual

def ofMessage : Message → Except MessageError Node
  | .object fields =>
    match (soleKey? fields).bind BodyKind.ofName? with
    | none => .error (.unknownNode (.object fields))
    | some kind => do
      let source ← contextOf fields
      ofField kind source fields
  | m => .error (.nodeNotObject m)

/-- Finds the field of the kind and decodes its body. -/
def ofField (kind : BodyKind) (source : Source) :
    List (String × Message) → Except MessageError Node
  | [] => .error (.unknownNode (.object []))
  | (key, body) :: fields =>
    if key = kind.name then (ofBody kind source body).mapError (·.error kind body)
    else ofField kind source fields

def ofBody (kind : BodyKind) (source : Source) : Message → Except BodyFault Node
  | .object fields =>
    match kind with
    | .constant =>
      match fields.lookup "value" with
      | none => .error (.missing "value")
      | some m => inside ((Expr.ofMessage m).map (.constant source))
    | .reference =>
      match fields.lookup "symbol" with
      | none => .error (.missing "symbol")
      | some m => inside ((Symbol.ofMessage m).map (.reference source))
    | .call => do
      let args ← ofArguments fields
      let function ← ofPart "function" fields
      return .call source function args
    | .conditional => do
      let test ← ofPart "test" fields
      let consequent ← ofPart "then_expression" fields
      match fields.lookup "else_expression" with
      | none | some .null => return .ifThen source test consequent
      | some _ => return .ifThenElse source test consequent (← ofPart "else_expression" fields)
  | _ => .error .broken

def ofPart (name : String) : List (String × Message) → Except BodyFault Node
  | [] => .error (.missing name)
  | (key, m) :: fields => if key = name then inside (ofMessage m) else ofPart name fields

/-- The arguments of a call; there are none if the field is missing. -/
def ofArguments : List (String × Message) → Except BodyFault (List Node)
  | [] => .ok []
  | (key, m) :: fields => if key = "positional_args" then ofItems m else ofArguments fields

def ofItems : Message → Except BodyFault (List Node)
  | .list items => inside (ofMessages items)
  | m =>
    match firstPart? m with
    | none => .error .broken
    | some none => .ok []
    | some (some part) => .error (.inside (.nodeNotObject part))

def ofMessages : List Message → Except MessageError (List Node)
  | [] => .ok []
  | m :: ms => do
    let n ← ofMessage m
    let ns ← ofMessages ms
    return n :: ns

end

def load (text : String) : Except MessageError Node :=
  Message.load text >>= ofMessage

def text (n : Node) : String := (n.toMessage true).write (some 2)

end Formulary.Node
