import Formulary.Number.Layout
import Formulary.Text.Quoted

/-!
# Messages

A message is the tree in which expressions and programs travel: the values of a JSON document,
with integers and doubles kept apart and with byte strings. The fields of an object keep the
order in which they were written.
-/
namespace Formulary

inductive Message where
  | null
  | bool (b : Bool)
  | int (n : Int)
  | double (x : Double)
  | bytes (bs : List UInt8)
  | str (s : String)
  | list (items : List Message)
  | object (fields : List (String × Message))
deriving Inhabited

namespace Message

/-- Sets a field: a new key goes to the end, a known one keeps its place. -/
def setField (fields : List (String × Message)) (key : String) (m : Message) :
    List (String × Message) :=
  if fields.any (·.1 == key) then fields.map fun f => if f.1 == key then (key, m) else f
  else fields ++ [(key, m)]

/-- Whether the message counts as present: neither null, false, zero nor empty. -/
def isPresent : Message → Bool
  | .null => false
  | .bool b => b
  | .int n => n != 0
  | .double x => !x.isZero
  | .bytes bs => !bs.isEmpty
  | .str s => s != ""
  | .list items => !items.isEmpty
  | .object fields => !fields.isEmpty

def typeName : Message → String
  | .null => "NoneType"
  | .bool _ => "bool"
  | .int _ => "int"
  | .double _ => "float"
  | .bytes _ => "bytes"
  | .str _ => "str"
  | .list _ => "list"
  | .object _ => "dict"

/-- The integer that a boolean or an integer counts as. -/
def integer? : Message → Option Int
  | .bool b => some (if b then 1 else 0)
  | .int n => some n
  | _ => none

/-- Equality of messages without parts: numbers are compared by value. -/
def sameLeaf : Message → Message → Bool
  | .null, .null => true
  | .bytes a, .bytes b => a == b
  | .str a, .str b => a == b
  | .double x, .double y => x.sameNumber y
  | .double x, m => m.integer?.any x.isInt
  | m, .double x => m.integer?.any x.isInt
  | a, b => match a.integer?, b.integer? with
    | some m, some n => m == n
    | _, _ => false

mutual

/-- Equality of messages: numbers by value, lists in order, objects whatever the order of their
fields. -/
def same : Message → Message → Bool
  | .list xs, .list ys => sameItems xs ys
  | .object fs, .object gs => fs.length == gs.length && sameFields fs gs
  | .list _, _ => false
  | .object _, _ => false
  | a, b => sameLeaf a b

def sameItems : List Message → List Message → Bool
  | [], [] => true
  | x :: xs, y :: ys => same x y && sameItems xs ys
  | _, _ => false

def sameFields : List (String × Message) → List (String × Message) → Bool
  | [], _ => true
  | (k, m) :: fs, gs => (gs.lookup k).any (same m ·) && sameFields fs gs

end

mutual

/-- Whether every integer in the message keeps a limit of digits. -/
def within (limit : DigitLimit) : Message → Bool
  | .int n => limit.admitsInt n
  | .list items => withinItems limit items
  | .object fields => withinFields limit fields
  | _ => true

def withinItems (limit : DigitLimit) : List Message → Bool
  | [] => true
  | m :: ms => within limit m && withinItems limit ms

def withinFields (limit : DigitLimit) : List (String × Message) → Bool
  | [] => true
  | (_, m) :: fs => within limit m && withinFields limit fs

end

def commas (items : List (List Char)) : List Char :=
  List.intercalate [',', ' '] items

mutual

/-- The message as it stands in the words of an error. No error has such words where an integer in
the message is beyond the limit of digits. -/
def shown : Message → List Char
  | .null => "None".toList
  | .bool b => (if b then "True" else "False").toList
  | .int n => intText n
  | .double x => Layout.value.byValue x
  | .bytes bs => Text.quotedBytes bs
  | .str s => Text.quoted s.toList
  | .list items => '[' :: commas (shownItems items) ++ [']']
  | .object fields => '\x7b' :: commas (shownFields fields) ++ ['\x7d']

def shownItems : List Message → List (List Char)
  | [] => []
  | m :: ms => shown m :: shownItems ms

def shownFields : List (String × Message) → List (List Char)
  | [] => []
  | (k, m) :: fs => (Text.quoted k.toList ++ ':' :: ' ' :: shown m) :: shownFields fs

end

def display (m : Message) : String := String.ofList m.shown

/-- The message as plain text: a string stands for itself. -/
def text : Message → String
  | .str s => s
  | m => m.display

end Message

end Formulary
