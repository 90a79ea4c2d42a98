import Formulary.Native
import Formulary.Number.Numeral
import Formulary.Number.Table

/-!
# Expressions from native values

`Expr.make` takes a kind and a value that must already belong to it. The constructors of single
kinds convert first, and `Expr.ofNative` chooses the kind by the type of the value: booleans stay
booleans, sized integers keep their width, plain integers become 64-bit ones, and lists and
tuples become lists.
-/
namespace Formulary

inductive ConstructError where
  | unknownKind (name : String)
  /-- A value that is not an integer of the host was given for an integer kind. -/
  | notInt (kind : IntKind) (v : Native)
  /-- A value that is neither an integer nor a sized one was given for an integer kind. -/
  | notInteger (kind : IntKind) (v : Native)
  | outOfRange (kind : IntKind) (n : Int)
  | wrongType (kind : Kind) (expected : String) (v : Native)
  /-- A nest of singles was given for a single. -/
  | nested (n : Nest Single)
  | notExpr (index : Nat) (typeName : String)
  | unsupported (v : Native)
  /-- The value cannot be converted at all. -/
  | unconvertible (kind : FailureKind)

namespace ConstructError

/-- Whether the fault can be put into words: every integer in what it shows keeps the limit of
digits. -/
def isWritable : ConstructError → Bool
  | .outOfRange _ n => DigitLimit.standard.admitsInt n
  | .notInt _ v | .notInteger _ v | .wrongType _ _ v | .unsupported v => v.within .standard
  | .unknownKind _ | .nested _ | .notExpr _ _ | .unconvertible _ => true

/-- A fault that cannot be put into words is reported as a fault of its value. -/
def kind (e : ConstructError) : FailureKind :=
  if e.isWritable then
    match e with
    | .unknownKind _ => .wireFormat
    | .outOfRange _ _ => .overflow
    | .unconvertible kind => kind
    | _ => .type
  else .value

def message? : ConstructError → Option String
  | .unknownKind name => s!"unsupported expression kind {(Message.str name).display}"
  | .notInt kind v => s!"{kind.name} expression requires an int value, got {v.display}"
  | .notInteger kind v => s!"{kind.name} expression requires an integer, got {v.display}"
  | .outOfRange kind n => kind.outOfRange n
  | .wrongType kind expected v =>
    s!"{kind.name} expression requires a {expected} value, got {v.display}"
  | .nested n =>
    s!"{Kind.single.name} expression requires a float32 value, got {String.ofList (Table.chars n)}"
  | .notExpr index typeName => s!"list element [{index}] must be an Expression, got {typeName}"
  | .unsupported v => s!"cannot construct an expression from {v.typeName}: {v.display}"
  | .unconvertible _ => none

def failure (e : ConstructError) : Failure :=
  ⟨e.kind, if e.isWritable then e.message? else none⟩

end ConstructError

namespace Native

/-- The integer of a plain or sized integer; booleans are none. -/
def integer? : Native → Option Int
  | .int n => some n
  | .sizedInt _ n => some n
  | _ => Option.none

def doubleOfInt (n : Int) : Except ConstructError Double :=
  (Binary.ofInt? .double n).elim (.error (.unconvertible .overflow)) .ok

def doubleOfText (cs : List Char) : Except ConstructError Double :=
  match Numeral.floatLiteral? cs with
  | some x => .ok x
  | Option.none => .error (.unconvertible .value)

/-- The double that a byte string holds as text, which must be ASCII. -/
def doubleOfBytes (bs : List UInt8) : Except ConstructError Double :=
  if bs.all (· < 0x80) then doubleOfText (bs.map fun b => Char.ofNat b.toNat)
  else .error (.unconvertible .value)

/-- The double that a value converts to: numbers of every width, booleans, and texts that hold a
number. -/
def toDouble : Native → Except ConstructError Double
  | .double x | .sizedDouble x => .ok x
  | .single x => .ok (x.convert .double)
  | .half x => .ok (x.convert .double)
  | .int n | .sizedInt _ n => doubleOfInt n
  | .bool b | .sizedBool b => doubleOfInt (if b then 1 else 0)
  | .str s => doubleOfText s.toList
  | .bytes bs | .buffer bs => doubleOfBytes bs
  | _ => .error (.unconvertible .type)

/-- The single that a value without parts converts to. A sized integer is rounded once, any other
number as a double first, and what is absent becomes `nan`. -/
def leafToSingle : Native → Except ConstructError Single
  | .none => .ok .nan
  | .single x => .ok x
  | .sizedInt _ n => .ok ((Binary.ofInt? .single n).getD .nan)
  | v => v.toDouble.map (·.convert .single)

mutual

/-- The value as a nest: lists, tuples and lists of expressions are rows, and so are byte strings
that can be written to. -/
def nest : Native → Nest Native
  | .list items => .row (nestAll items)
  | .tuple items => .row (nestAll items)
  | .exprs es => .row (es.map fun e => .leaf (.expr e))
  | .buffer bs => .row (bs.map fun b => .leaf (.int b.toNat))
  | v => .leaf v

def nestAll : List Native → List (Nest Native)
  | [] => []
  | v :: vs => nest v :: nestAll vs

end

def maxLevels : Nat := 64

/-- The single that a value converts to. Rows convert only as a whole, if they are rectangular,
and what they convert to is no single. -/
def toSingle (v : Native) : Except ConstructError Single :=
  match v.nest.shape? with
  | Option.none => .error (.unconvertible .value)
  | some shape =>
    if maxLevels < shape.length then .error (.unconvertible .value)
    else do
      match ← v.nest.mapLeaves leafToSingle with
      | .leaf x => .ok x
      | n => .error (.nested n)

/-- The integer by which a value can count or index. -/
def index? : Native → Option Int
  | .bool b | .sizedBool b => some (if b then 1 else 0)
  | v => v.integer?

def toByte (v : Native) : Except ConstructError UInt8 :=
  match v.index? with
  | some n => if 0 ≤ n ∧ n < 256 then .ok (UInt8.ofNat n.toNat) else .error (.unconvertible .value)
  | Option.none => .error (.unconvertible .type)

def maxLength : Int := 9223372036854775774

def zeroBytes (n : Int) : Except ConstructError (List UInt8) :=
  if n < IntKind.int64.min ∨ maxLength < n then .error (.unconvertible .overflow)
  else if n < 0 then .error (.unconvertible .value)
  else .ok (List.replicate n.toNat 0)

/-- The interchange encoding of a number, the lowest byte first. -/
def encoding {f : FloatFormat} (count : Nat) (x : Binary f) : List UInt8 :=
  (List.range count).map fun i => UInt8.ofNat (x.toBits / Nat.pow 256 i)

/-- The byte string that a value converts to: the zero bytes that an integer counts, one byte per
item, or the encoding of a sized number. -/
def toBytes : Native → Except ConstructError (List UInt8)
  | .bytes bs | .buffer bs => .ok bs
  | .half x => .ok (encoding 2 x)
  | .single x => .ok (encoding 4 x)
  | .sizedDouble x => .ok (encoding 8 x)
  | .list items | .tuple items => items.mapM toByte
  | .exprs [] => .ok []
  | .mapping [] => .ok []
  | v => match v.index? with
    | some n => zeroBytes n
    | Option.none => .error (.unconvertible .type)

def items? : Native → Option (List Native)
  | .list items | .tuple items => some items
  | .exprs es => some (es.map .expr)
  | .str s => some (s.toList.map fun c => .str (String.singleton c))
  | .bytes bs | .buffer bs => some (bs.map fun b => .int b.toNat)
  | .mapping fields => some (fields.map fun f => .str f.1)
  | _ => Option.none

end Native

namespace Expr

/-- The items of a list, each of which must be an expression. -/
def requireExprs (index : Nat) : List Native → Except ConstructError (List Expr)
  | [] => .ok []
  | .expr e :: vs => (requireExprs (index + 1) vs).map (e :: ·)
  | v :: _ => .error (.notExpr index v.typeName)

def checkedInt (kind : IntKind) (n : Int) : Except ConstructError Expr :=
  if kind.contains n then .ok (.atom none (.int kind n)) else .error (.outOfRange kind n)

/-- An expression of a given kind from a value that belongs to it. -/
def ofKind (kind : Kind) (v : Native) : Except ConstructError Expr :=
  match kind, v with
  | .int k, .int n => checkedInt k n
  | .int k, v => .error (.notInt k v)
  | .bool, .bool b => .ok (.atom none (.bool b))
  | .bool, v => .error (.wrongType kind "bool" v)
  | .single, .single x => .ok (.atom none (.single x))
  | .single, v => .error (.wrongType kind "float32" v)
  | .double, .double x => .ok (.atom none (.double x))
  | .double, .sizedDouble x => .ok (.atom none (.double x))
  | .double, v => .error (.wrongType kind "float" v)
  | .bytes, .bytes bs => .ok (.atom none (.bytes bs))
  | .bytes, v => .error (.wrongType kind "bytes" v)
  | .string, .str s => .ok (.atom none (.string s))
  | .string, v => .error (.wrongType kind "str" v)
  | .symbol, .symbol s => .ok (.atom none (.symbol s))
  | .symbol, v => .error (.wrongType kind "Symbol" v)
  | .list, .exprs es => .ok (.list none es)
  | .list, v => .error (.wrongType kind "ExprList" v)

def make (kind : String) (v : Native) (source : Source) : Except ConstructError Expr :=
  match Kind.ofName? kind with
  | none => .error (.unknownKind kind)
  | some k => (ofKind k v).map (·.withSource source)

def ofInteger (kind : IntKind) (v : Native) : Except ConstructError Expr :=
  match v.integer? with
  | some n => checkedInt kind n
  | none => .error (.notInteger kind v)

def ofBool (v : Native) : Except ConstructError Expr := .ok (.atom none (.bool v.truth))

def ofSingle (v : Native) : Except ConstructError Expr :=
  v.toSingle.map fun x => .atom none (.single x)

def ofDouble (v : Native) : Except ConstructError Expr :=
  v.toDouble.map fun x => .atom none (.double x)

def ofBytes (v : Native) : Except ConstructError Expr :=
  v.toBytes.map fun bs => .atom none (.bytes bs)

/-- A string expression holds the value as plain text, which an integer beyond the limit of digits
has not. -/
def ofString (v : Native) : Except ConstructError Expr :=
  if v.within .standard then .ok (.atom none (.string v.text)) else .error (.unconvertible .value)

def ofSymbol (v : Native) : Except ConstructError Expr := ofKind .symbol v

def ofList (v : Native) : Except ConstructError Expr :=
  match v.items? with
  | none => .error (.unconvertible .type)
  | some items => (requireExprs 0 items).map (.list none)

mutual

/-- An expression of the kind that the type of the value chooses. -/
def ofNative : Native → Except ConstructError Expr
  | .expr e => .ok e
  | .bool b | .sizedBool b => .ok (.atom none (.bool b))
  | .sizedInt kind n => checkedInt kind.intKind n
  | .int n => checkedInt .int64 n
  | .single x => .ok (.atom none (.single x))
  | .double x | .sizedDouble x => .ok (.atom none (.double x))
  | .half x => .ok (.atom none (.double (x.convert .double)))
  | .str s => .ok (.atom none (.string s))
  | .bytes bs | .buffer bs => .ok (.atom none (.bytes bs))
  | .symbol s => .ok (.atom none (.symbol s))
  | .exprs es => .ok (.list none es)
  | .list items | .tuple items => (ofNatives items).map (.list none)
  | v => .error (.unsupported v)

def ofNatives : List Native → Except ConstructError (List Expr)
  | [] => .ok []
  | v :: vs => do
    let e ← ofNative v
    let es ← ofNatives vs
    return e :: es

end

end Expr

end Formulary
