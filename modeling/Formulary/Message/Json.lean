import Formulary.Message.Basic
import Formulary.Text.Base64
import Formulary.Text.Basic

/-!
# Messages as JSON text

`Message.write` gives the JSON text of a message: the fields of an object in the order of their
keys, everything but printable ASCII escaped, byte strings in base 64. `Message.read` takes any
JSON text, the special doubles included; an object that sets a key twice keeps the place of the
first and the value of the last. Reading stops at the first integer that is beyond the limit of
digits. Texts are made of characters, so half of a surrogate pair is no escape.
-/
namespace Formulary.Message

open Text (hex ofHex? Piece separated)

/-- A character outside the basic plane is written as a surrogate pair. -/
def writeCode (n : Nat) : List Char :=
  if n < 0x10000 then '\\' :: 'u' :: hex 4 n
  else
    '\\' :: 'u' :: hex 4 (0xD800 + (n - 0x10000) / 0x400) ++
      '\\' :: 'u' :: hex 4 (0xDC00 + (n - 0x10000) % 0x400)

def writeChar (c : Char) : List Char :=
  if c = '\x22' ∨ c = '\\' then ['\\', c]
  else if c = '\n' then ['\\', 'n']
  else if c = '\r' then ['\\', 'r']
  else if c = '\t' then ['\\', 't']
  else if c = '\x08' then ['\\', 'b']
  else if c = '\x0c' then ['\\', 'f']
  else if ' ' ≤ c ∧ c ≤ '~' then [c]
  else writeCode c.toNat

def writeString (cs : List Char) : List Char :=
  '\x22' :: cs.flatMap writeChar ++ ['\x22']

/-- How a document is spread over lines: on one line, or with each level indented. -/
abbrev Spread := Option Nat

def lineBreak (width level : Nat) : List Char :=
  '\n' :: List.replicate (width * level) ' '

/-- The parts between brackets; `level` is the depth of the bracket. -/
def bracket (spread : Spread) (level : Nat) (opening closing : Char) (parts : List Piece) : Piece :=
  match parts, spread with
  | [], _ => fun rest => opening :: closing :: rest
  | parts, none => fun rest => opening :: separated [',', ' '] parts (closing :: rest)
  | parts, some width => fun rest =>
    opening :: lineBreak width (level + 1) ++
      separated (',' :: lineBreak width (level + 1)) parts
        (lineBreak width level ++ closing :: rest)

def sortFields (fields : List (String × Piece)) : List (String × Piece) :=
  fields.mergeSort fun a b => a.1 ≤ b.1

def writeField (field : String × Piece) : Piece := fun rest =>
  writeString field.1.toList ++ ':' :: ' ' :: field.2 rest

/-- Every integer is written in full, whatever its length. -/
def writeLeaf : Message → List Char
  | .bool b => (if b then "true" else "false").toList
  | .int n => intText n
  | .double x => Layout.json.byValue x
  | .bytes bs => writeString (Text.Base64.encode bs)
  | .str s => writeString s.toList
  | _ => "null".toList

mutual

/-- The JSON text of a message in front of some other text. -/
def writeOnto (spread : Spread) (level : Nat) : Message → Piece
  | .list items => bracket spread level '[' ']' (writeItems spread (level + 1) items)
  | .object fields =>
    bracket spread level '\x7b' '\x7d'
      ((sortFields (writeFields spread (level + 1) fields)).map writeField)
  | m => fun rest => writeLeaf m ++ rest

def writeItems (spread : Spread) (level : Nat) : List Message → List Piece
  | [] => []
  | m :: ms => writeOnto spread level m :: writeItems spread level ms

def writeFields (spread : Spread) (level : Nat) :
    List (String × Message) → List (String × Piece)
  | [] => []
  | (k, m) :: fs => (k, writeOnto spread level m) :: writeFields spread level fs

end

def write (m : Message) (spread : Spread) : String :=
  String.ofList (writeOnto spread 0 m [])

def line (m : Message) : String := m.write none

/-! ## Reading -/

def isSpace (c : Char) : Bool :=
  c == ' ' || c == '\t' || c == '\n' || c == '\r'

def skipSpace (cs : List Char) : List Char := cs.dropWhile isSpace

def simpleEscape? : Char → Option Char
  | '\x22' => some '\x22'
  | '\\' => some '\\'
  | '/' => some '/'
  | 'b' => some '\x08'
  | 'f' => some '\x0c'
  | 'n' => some '\n'
  | 'r' => some '\r'
  | 't' => some '\t'
  | _ => none

/-- The character of a surrogate pair, if the two codes form one. -/
def pair? (high low : Nat) : Option Char :=
  if 0xD800 ≤ high ∧ high < 0xDC00 ∧ 0xDC00 ≤ low ∧ low < 0xE000 then
    some (Char.ofNat (0x10000 + (high - 0xD800) * 0x400 + (low - 0xDC00)))
  else none

/-- The rest of a string after its opening quote, and what follows the closing one. Half of a
surrogate pair is refused. -/
def readChars : List Char → Option (List Char × List Char)
  | [] => none
  | '\x22' :: rest => some ([], rest)
  | '\\' :: 'u' :: a :: b :: c :: d :: rest =>
    match ofHex? [a, b, c, d] with
    | none => none
    | some high =>
      if 0xD800 ≤ high ∧ high < 0xE000 then
        match rest with
        | '\\' :: 'u' :: e :: f :: g :: h :: rest' => do
          let low ← ofHex? [e, f, g, h]
          let ch ← pair? high low
          let (s, r) ← readChars rest'
          some (ch :: s, r)
        | _ => none
      else (readChars rest).map fun (s, r) => (Char.ofNat high :: s, r)
  | '\\' :: e :: rest => do
    let ch ← simpleEscape? e
    let (s, r) ← readChars rest
    some (ch :: s, r)
  | c :: rest =>
    if c.toNat < 0x20 ∨ c = '\\' then none
    else (readChars rest).map fun (s, r) => (c :: s, r)

/-- The fraction of a number, if a point with digits after it comes next. -/
def readFraction : List Char → List Char × List Char
  | '.' :: rest =>
    if (rest.takeWhile Char.isDigit).isEmpty then ([], '.' :: rest)
    else (rest.takeWhile Char.isDigit, rest.dropWhile Char.isDigit)
  | cs => ([], cs)

/-- The exponent of a number, if a mark with digits after it comes next. -/
def readExponent : List Char → Option Int × List Char
  | c :: rest =>
    let (negative, ds) := match rest with
      | '+' :: ds => (false, ds)
      | '-' :: ds => (true, ds)
      | ds => (false, ds)
    let digits := ds.takeWhile Char.isDigit
    if (c == 'e' || c == 'E') && !digits.isEmpty then
      let n := Nat.ofDigitChars 10 digits 0
      (some (if negative then -(n : Int) else n), ds.dropWhile Char.isDigit)
    else (none, c :: rest)
  | [] => (none, [])

/-- Why a text is not read: it is no JSON text, or an integer in it has too many digits. -/
inductive ReadFault where
  | malformed
  | tooManyDigits
deriving DecidableEq, Repr

/-- The digits in front of a number. A leading zero stands alone. -/
def wholeDigits : List Char → List Char
  | '0' :: _ => ['0']
  | cs => cs.takeWhile Char.isDigit

/-- An unsigned number: one with fraction or exponent is a double, any other an integer. -/
def readNumber (limit : DigitLimit) (negative : Bool) (cs : List Char) :
    Except ReadFault (Message × List Char) :=
  let whole := wholeDigits cs
  if whole.isEmpty then .error .malformed
  else
    let (fraction, rest) := readFraction (cs.drop whole.length)
    let (exponent?, rest) := readExponent rest
    let n := Nat.ofDigitChars 10 (whole ++ fraction) 0
    if fraction.isEmpty && exponent?.isNone then
      if limit.admits whole then .ok (.int (if negative then -(n : Int) else n), rest)
      else .error .tooManyDigits
    else
      .ok (.double (.ofDecimal .double ⟨negative, n, exponent?.getD 0 - fraction.length⟩), rest)

/-- The values that are written as one word, and numbers. -/
def readWord (limit : DigitLimit) : List Char → Except ReadFault (Message × List Char)
  | 'n' :: 'u' :: 'l' :: 'l' :: r => .ok (.null, r)
  | 't' :: 'r' :: 'u' :: 'e' :: r => .ok (.bool true, r)
  | 'f' :: 'a' :: 'l' :: 's' :: 'e' :: r => .ok (.bool false, r)
  | 'N' :: 'a' :: 'N' :: r => .ok (.double .nan, r)
  | 'I' :: 'n' :: 'f' :: 'i' :: 'n' :: 'i' :: 't' :: 'y' :: r => .ok (.double (.infinity false), r)
  | '-' :: 'I' :: 'n' :: 'f' :: 'i' :: 'n' :: 'i' :: 't' :: 'y' :: r =>
    .ok (.double (.infinity true), r)
  | '-' :: r => readNumber limit true r
  | cs => readNumber limit false cs

def readText (cs : List Char) : Except ReadFault (List Char × List Char) :=
  match readChars cs with
  | some text => .ok text
  | none => .error .malformed

mutual

/-- A value at the start of the text, and what follows it. An opening bracket and its partner pay
for the two calls of a level, so the length of the text is fuel enough. -/
def readValue (limit : DigitLimit) : Nat → List Char → Except ReadFault (Message × List Char)
  | 0, _ => .error .malformed
  | _ + 1, '\x22' :: rest => (readText rest).map fun (s, r) => (.str (String.ofList s), r)
  | fuel + 1, '[' :: rest =>
    match skipSpace rest with
    | ']' :: r => .ok (.list [], r)
    | r => (readItems limit fuel r).map fun (items, r) => (.list items, r)
  | fuel + 1, '\x7b' :: rest =>
    match skipSpace rest with
    | '\x7d' :: r => .ok (.object [], r)
    | r => (readFields limit fuel r).map fun (fields, r) =>
        (.object (fields.foldl (fun fs f => setField fs f.1 f.2) []), r)
  | _ + 1, cs => readWord limit cs

/-- The items of a list up to its closing bracket; there is at least one. -/
def readItems (limit : DigitLimit) :
    Nat → List Char → Except ReadFault (List Message × List Char)
  | 0, _ => .error .malformed
  | fuel + 1, cs => do
    let (m, r) ← readValue limit fuel cs
    match skipSpace r with
    | ']' :: r => .ok ([m], r)
    | ',' :: r => do
      let (ms, r) ← readItems limit fuel (skipSpace r)
      .ok (m :: ms, r)
    | _ => .error .malformed

/-- The fields of an object up to its closing bracket; there is at least one. -/
def readFields (limit : DigitLimit) :
    Nat → List Char → Except ReadFault (List (String × Message) × List Char)
  | 0, _ => .error .malformed
  | fuel + 1, '\x22' :: cs => do
    let (k, r) ← readText cs
    match skipSpace r with
    | ':' :: r => do
      let (m, r) ← readValue limit fuel (skipSpace r)
      match skipSpace r with
      | '\x7d' :: r => .ok ([(String.ofList k, m)], r)
      | ',' :: r => do
        let (fs, r) ← readFields limit fuel (skipSpace r)
        .ok ((String.ofList k, m) :: fs, r)
      | _ => .error .malformed
    | _ => .error .malformed
  | _ + 1, _ => .error .malformed

end

/-- The message that a JSON text denotes, byte strings still being text. -/
def read (limit : DigitLimit) (cs : List Char) : Except ReadFault Message := do
  let (m, r) ← readValue limit (cs.length + 1) (skipSpace cs)
  if skipSpace r = [] then .ok m else .error .malformed

end Formulary.Message
