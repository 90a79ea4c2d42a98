import Formulary.Failure
import Formulary.Message.Json
import Formulary.Number.IntKind

/-!
# Faults of messages

What can be wrong with a JSON text or with a message that should describe a symbol, an expression
or a program, and how each fault is worded.
-/
namespace Formulary

inductive MessageError where
  | notJson
  /-- An integer in the text has more digits than the limit allows. -/
  | tooManyDigits
  /-- The text holds a value of the named type where an object is due. -/
  | notObject (typeName : String)
  | badBase64 (text : String)
  | symbolNotObject (m : Message)
  | symbolPartNotText (m : Message)
  | exprNotObject (m : Message)
  | unknownExpr (m : Message)
  | notBool (m : Message)
  | notInteger (kind : IntKind) (m : Message)
  | outOfRange (kind : IntKind) (n : Int)
  | notNumber (kind : String) (m : Message)
  | notBytes (m : Message)
  | notText (m : Message)
  | listNotObject (m : Message)
  | elementsNotList (m : Message)
  | inElement (index : Nat) (cause : MessageError)
  | nodeNotObject (m : Message)
  | unknownNode (m : Message)
  /-- The body of a node lacks a part, whose name is given if the body is an object. -/
  | malformed (kind : String) (body : Message) (missing : Option String)
  /-- An integer stands for a number that no double can hold. -/
  | tooLarge
  /-- The source context of a node is present but no object. -/
  | contextNotObject
deriving Inhabited

namespace MessageError

/-- Whether the fault can be put into words: every integer in what it shows keeps the limit of
digits. -/
def isWritable : MessageError → Bool
  | .outOfRange _ n => DigitLimit.standard.admitsInt n
  | .symbolNotObject m | .symbolPartNotText m | .exprNotObject m | .unknownExpr m | .notBool m
  | .notInteger _ m | .notNumber _ m | .notBytes m | .notText m | .listNotObject m
  | .elementsNotList m | .nodeNotObject m | .unknownNode m | .malformed _ m _ =>
    m.within .standard
  | .inElement _ cause => cause.isWritable
  | .notJson | .tooManyDigits | .notObject _ | .badBase64 _ | .tooLarge | .contextNotObject => true

/-- A fault that cannot be put into words is reported as a fault of its value. -/
def kind : MessageError → FailureKind
  | .tooManyDigits => .value
  | .tooLarge => .overflow
  | .contextNotObject => .attribute
  | e => if e.isWritable then .wireFormat else .value

def message : MessageError → String
  | .notJson => "invalid wire JSON"
  | .tooManyDigits => "an integer has too many digits"
  | .notObject typeName => s!"wire JSON must hold an object, got {typeName}"
  | .badBase64 text => s!"invalid base64 bytes value {(Message.str text).display}"
  | .symbolNotObject m => s!"symbol message must be a mapping, got {m.display}"
  | .symbolPartNotText m => s!"symbol name and namespace must be strings, got {m.display}"
  | .exprNotObject m => s!"expression message must be a mapping, got {m.display}"
  | .unknownExpr m => s!"unsupported expression message {m.display}"
  | .notBool m => s!"bool value must be a boolean, got {m.display}"
  | .notInteger kind m => s!"{kind.name} value must be an integer, got {m.display}"
  | .outOfRange kind n => kind.outOfRange n
  | .notNumber kind m => s!"{kind} value must be a number, got {m.display}"
  | .notBytes m => s!"bytes value must be bytes, got {m.display}"
  | .notText m => s!"string value must be a str, got {m.display}"
  | .listNotObject m => s!"list message must be a mapping, got {m.display}"
  | .elementsNotList m => s!"list elements must be a list, got {m.display}"
  | .inElement index cause => s!"error parsing list[{index}]: {cause.message}"
  | .nodeNotObject m => s!"AST message must be a mapping, got {m.display}"
  | .unknownNode m => s!"unsupported AST message {m.display}"
  | .malformed kind body none => s!"malformed {kind} message {body.display}"
  | .malformed kind body (some part) =>
    s!"malformed {kind} message {body.display}: {(Message.str part).display}"
  | .tooLarge => "int too large to convert to float"
  | .contextNotObject => "source context must be a mapping"

/-- The failure that callers see; only the library's own faults are reported in words. -/
def failure (e : MessageError) : Failure :=
  ⟨e.kind, if e.kind.isOwn then some e.message else none⟩

/-- Places a fault in an element of a list; only the library's own faults are placed. -/
def atElement (index : Nat) (e : MessageError) : MessageError :=
  if e.kind.isOwn then .inElement index e else e

end MessageError

namespace Message

mutual

/-- Turns the texts under the key `bytes` into byte strings, at every depth. -/
def decodeBytes : Message → Except MessageError Message
  | .list items => (decodeBytesItems items).map .list
  | .object fields => (decodeBytesFields fields).map .object
  | m => .ok m

def decodeBytesItems : List Message → Except MessageError (List Message)
  | [] => .ok []
  | m :: ms => do
    let m ← decodeBytes m
    let ms ← decodeBytesItems ms
    return m :: ms

def decodeBytesFields : List (String × Message) → Except MessageError (List (String × Message))
  | [] => .ok []
  | (k, m) :: fs => do
    let m ← match k == "bytes", m with
      | true, .str s =>
        match Text.Base64.decode? s.toList with
        | some bs => .ok (.bytes bs)
        | none => .error (.badBase64 s)
      | _, m => decodeBytes m
    let fs ← decodeBytesFields fs
    return (k, m) :: fs

end

/-- The message of a JSON text, which must hold an object. -/
def loadWithin (limit : DigitLimit) (text : String) : Except MessageError Message :=
  match read limit text.toList with
  | .error .malformed => .error .notJson
  | .error .tooManyDigits => .error .tooManyDigits
  | .ok (.object fields) => (Message.object fields).decodeBytes
  | .ok m => .error (.notObject m.typeName)

def load (text : String) : Except MessageError Message := loadWithin .standard text

def sourceKey : String := "source_context"

/-- The only field of an object besides the source context. -/
def soleKey? (fields : List (String × Message)) : Option String :=
  match fields.filter (·.1 != sourceKey) with
  | [(k, _)] => some k
  | _ => none

/-- The source context of an object; null counts as absent. -/
def sourceOf (fields : List (String × Message)) : Option Message :=
  match fields.lookup sourceKey with
  | none | some .null => none
  | some m => some m

end Message

end Formulary
