import Formulary.Expr.Printer

/-!
# Native values

The values that a host program hands in and gets back: what expressions hold, what functions take
and return, and what destinations are bound to. Beside plain numbers there are sized ones, whose
width belongs to the value.
-/
namespace Formulary

/-- The widths of sized integers. Two more types have 64 bits as well. -/
inductive WordKind where
  | int8 | int16 | int32 | int64 | uint8 | uint16 | uint32 | uint64 | longlong | ulonglong
deriving DecidableEq, Repr

namespace WordKind

def all : List WordKind :=
  [int8, int16, int32, int64, uint8, uint16, uint32, uint64, longlong, ulonglong]

def name : WordKind → String
  | int8 => "int8"
  | int16 => "int16"
  | int32 => "int32"
  | int64 => "int64"
  | uint8 => "uint8"
  | uint16 => "uint16"
  | uint32 => "uint32"
  | uint64 => "uint64"
  | longlong => "longlong"
  | ulonglong => "ulonglong"

def min : WordKind → Int
  | int8 => -128
  | int16 => -32768
  | int32 => -2147483648
  | int64 | longlong => -9223372036854775808
  | uint8 | uint16 | uint32 | uint64 | ulonglong => 0

def max : WordKind → Int
  | int8 => 127
  | int16 => 32767
  | int32 => 2147483647
  | int64 | longlong => 9223372036854775807
  | uint8 => 255
  | uint16 => 65535
  | uint32 => 4294967295
  | uint64 | ulonglong => 18446744073709551615

/-- The kind that is listed for the type. -/
def intKind? : WordKind → Option IntKind
  | int8 | int16 | int32 => some .int32
  | int64 => some .int64
  | uint8 | uint16 | uint32 => some .uint32
  | uint64 => some .uint64
  | longlong | ulonglong => none

/-- A type that is not listed counts as one of signed integers of 64 bits. -/
def intKind (kind : WordKind) : IntKind := kind.intKind?.getD .int64

end WordKind

inductive Native where
  | none
  | bool (b : Bool)
  | int (n : Int)
  | double (x : Double)
  | str (s : String)
  | bytes (bs : List UInt8)
  | symbol (s : Symbol)
  | expr (e : Expr)
  | exprs (es : List Expr)
  | list (items : List Native)
  | tuple (items : List Native)
  | mapping (fields : List (String × Native))
  /-- A byte string that can be written to. -/
  | buffer (bs : List UInt8)
  | record (name : String) (fields : List (String × Native))
  | sizedBool (b : Bool)
  | sizedInt (kind : WordKind) (n : Int)
  | half (x : Half)
  | single (x : Single)
  | sizedDouble (x : Double)
deriving Inhabited

namespace Native

open Message (commas)

def typeName : Native → String
  | .none => "NoneType"
  | .bool _ => "bool"
  | .int _ => "int"
  | .double _ => "float"
  | .str _ => "str"
  | .bytes _ => "bytes"
  | .symbol _ => "Symbol"
  | .expr _ => "Expression"
  | .exprs _ => "ExprList"
  | .list _ => "list"
  | .tuple _ => "tuple"
  | .mapping _ => "dict"
  | .buffer _ => "bytearray"
  | .record name _ => name
  | .sizedBool _ => "bool"
  | .sizedInt kind _ => kind.name
  | .half _ => "float16"
  | .single _ => "float32"
  | .sizedDouble _ => "float64"

mutual

/-- Whether every integer in the value keeps a limit of digits. Those of expressions have at most 64
bits. -/
def within (limit : DigitLimit) : Native → Bool
  | .int n | .sizedInt _ n => limit.admitsInt n
  | .list items | .tuple items => withinAll limit items
  | .mapping fields | .record _ fields => withinFields limit fields
  | _ => true

def withinAll (limit : DigitLimit) : List Native → Bool
  | [] => true
  | v :: vs => within limit v && withinAll limit vs

def withinFields (limit : DigitLimit) : List (String × Native) → Bool
  | [] => true
  | (_, v) :: fs => within limit v && withinFields limit fs

end

/-- A sized value is shown with its type. -/
def sized (typeName : String) (text : List Char) : List Char :=
  "np.".toList ++ typeName.toList ++ '(' :: text ++ [')']

mutual

/-- The value as it stands in the words of an error. No error has such words where an integer in the
value is beyond the limit of digits. -/
def shown : Native → List Char
  | .none => "None".toList
  | .bool b => (if b then "True" else "False").toList
  | .int n => intText n
  | .double x => Layout.value.byValue x
  | .str s => Text.quoted s.toList
  | .bytes bs => Text.quotedBytes bs
  | .symbol s => s.display.toList
  | .expr e => e.display.toList
  | .exprs es => "ExprList(".toList ++ (Expr.list Option.none es).chars ++ [')']
  | .list items => '[' :: commas (shownAll items) ++ [']']
  | .tuple items =>
    match shownAll items with
    | [item] => '(' :: item ++ [',', ')']
    | items => '(' :: commas items ++ [')']
  | .mapping fields => '\x7b' :: commas (shownFields fields) ++ ['\x7d']
  | .buffer bs => Text.quotedBuffer bs
  | .record name fields => name.toList ++ '(' :: commas (shownParts fields) ++ [')']
  | .sizedBool b => (if b then "np.True_" else "np.False_").toList
  | .sizedInt kind n => sized kind.name (intText n)
  | .half x => sized "float16" (Layout.value.byValue x)
  | .single x => sized "float32" (Layout.value.byValue x)
  | .sizedDouble x => sized "float64" (Layout.value.byValue x)

def shownAll : List Native → List (List Char)
  | [] => []
  | v :: vs => shown v :: shownAll vs

def shownFields : List (String × Native) → List (List Char)
  | [] => []
  | (k, v) :: fs => (Text.quoted k.toList ++ ':' :: ' ' :: shown v) :: shownFields fs

def shownParts : List (String × Native) → List (List Char)
  | [] => []
  | (k, v) :: fs => (k.toList ++ '=' :: shown v) :: shownParts fs

end

def display (v : Native) : String := String.ofList v.shown

/-- The value as plain text: strings, symbols and expressions stand for themselves, and a sized
value is written without its type. -/
def text : Native → String
  | .str s => s
  | .symbol s => s.text
  | .expr e => e.text
  | .exprs es => Expr.listText es
  | .sizedBool b => if b then "True" else "False"
  | .sizedInt _ n => String.ofList (intText n)
  | .half x => String.ofList (Layout.value.byValue x)
  | .single x => String.ofList (Layout.value.byValue x)
  | .sizedDouble x => String.ofList (Layout.value.byValue x)
  | v => v.display

/-- Whether the value counts as true: neither absent, false, zero nor empty. -/
def truth : Native → Bool
  | .none => false
  | .bool b | .sizedBool b => b
  | .int n | .sizedInt _ n => n != 0
  | .double x | .sizedDouble x => !x.isZero
  | .single x => !x.isZero
  | .half x => !x.isZero
  | .str s => s != ""
  | .bytes bs | .buffer bs => !bs.isEmpty
  | .exprs es => !es.isEmpty
  | .list vs | .tuple vs => !vs.isEmpty
  | .mapping fields => !fields.isEmpty
  | .symbol _ | .expr _ | .record _ _ => true

end Native

namespace Atom

def native : Atom → Native
  | .bool b => .bool b
  | .int _ n => .int n
  | .single x => .single x
  | .double x => .double x
  | .bytes bs => .bytes bs
  | .string s => .str s
  | .symbol s => .symbol s

end Atom

namespace Expr

def native : Expr → Native
  | .atom _ a => a.native
  | .list _ es => .exprs es

end Expr

end Formulary
