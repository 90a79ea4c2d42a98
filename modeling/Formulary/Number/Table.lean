import Formulary.Number.Layout
import Formulary.Number.Nest

/-!
# Tables of singles

Error messages show a rectangular nest of singles as a table. All numbers of a table are written
in one notation, positional or scientific, with their points below one another; rows that are too
long are continued on the next line, and large tables are shown by their edges only.
-/
namespace Formulary

/-- What is fixed for all tables. -/
structure TableLayout where
  /-- The most digits after the point in positional notation. -/
  places : Nat
  lineWidth : Nat
  /-- The most numbers that are shown in full. -/
  most : Nat
  /-- How many nests are shown at each end of a row of a larger table. -/
  edge : Nat

def TableLayout.message : TableLayout := ⟨8, 75, 1000, 3⟩

namespace Table

open FloatFormat (single)

/-- A finite single by its sign and its rank. -/
def finite? : Single → Option (Bool × Fin single.count)
  | .finite negative rank => some (negative, rank)
  | _ => none

/-- Whether the numbers with the given ranks are written in scientific notation: some number is
at least `10 ^ 8` or below `10 ^ -4`, or the quotient of two numbers exceeds `1000`. All bounds
and the quotient are rounded to singles, and zeros do not count. -/
def isScientific (ranks : List (Fin single.count)) : Bool :=
  let unit := Nat.pow 2 single.scale
  let nonzero := (ranks.map (·.val)).filter (· != 0)
  match nonzero.max?, nonzero.min? with
  | some greatest, some least =>
    decide (single.nearest (100000000 * unit) 1 ≤ greatest) ||
      decide (least < single.nearest unit 10000) ||
      decide (single.nearest (1000 * unit) 1 <
        single.nearest (single.units greatest * unit) (single.units least))
  | _, _ => false

/-- The decimal that stands for a number in positional notation: the shortest one that is read
back, or the exact value rounded if that has too many places. -/
def positionalDecimal (places : Nat) (negative : Bool) (rank : Fin single.count) : Decimal :=
  let d := Binary.shortest single negative rank
  if (d.digits.length : Int) - 1 - d.magnitude ≤ places then d
  else ⟨negative, roundHalfEven (single.units rank * Nat.pow 10 places) (Nat.pow 2 single.scale), -places⟩

def signChars (negative : Bool) : List Char := if negative then ['-'] else []

/-- What stands before and after the point in positional notation. -/
def positionalParts (d : Decimal) : List Char × List Char :=
  let ds := d.digits
  let m := d.magnitude
  if m < 0 then
    (signChars d.negative ++ ['0'], List.replicate (-m - 1).toNat '0' ++ ds)
  else
    (signChars d.negative ++ (ds.take (m.toNat + 1)).rightpad (m.toNat + 1) '0',
      ds.drop (m.toNat + 1))

/-- What stands before and after the point in scientific notation. -/
def scientificParts (d : Decimal) : List Char × List Char :=
  (signChars d.negative ++ d.digits.take 1, d.digits.drop 1)

structure Format where
  isScientific : Bool
  left : Nat
  places : Nat

namespace Format

def right (f : Format) : Nat := if f.isScientific then f.places + 4 else f.places

def decimal (isScientific : Bool) (negative : Bool) (rank : Fin single.count) : Decimal :=
  if isScientific then Binary.shortest single negative rank
  else positionalDecimal TableLayout.message.places negative rank

def parts (isScientific : Bool) (d : Decimal) : List Char × List Char :=
  if isScientific then scientificParts d else positionalParts d

def special (x : Single) : List Char := Layout.value.special x

/-- The format in which all given numbers find room. -/
def ofCells (xs : List Single) : Format :=
  let numbers := xs.filterMap finite?
  let s := Table.isScientific (numbers.map (·.2))
  let written := numbers.map fun (negative, rank) => parts s (decimal s negative rank)
  let f : Format :=
    ⟨s, ((written.map (·.1.length)).max?).getD 0, ((written.map (·.2.length)).max?).getD 0⟩
  let specials := (xs.filter fun x => (finite? x).isNone).map fun x => (special x).length
  { f with left := max f.left (((specials.max?).getD 0) - (f.right + 1)) }

def cell (f : Format) (x : Single) : List Char :=
  match finite? x with
  | some (negative, rank) =>
    let d := decimal f.isScientific negative rank
    let (before, after) := parts f.isScientific d
    before.leftpad f.left ' ' ++ '.' ::
      if f.isScientific then after.rightpad f.places '0' ++ Layout.exponent d.magnitude
      else after.rightpad f.places ' '
  | none => (special x).leftpad (f.left + f.right + 1) ' '

end Format

/-! ## Rows -/

def blanks (n : Nat) : List Char := List.replicate n ' '

def trimEnd (line : List Char) : List Char := (line.reverse.dropWhile (· == ' ')).reverse

/-- Adds words to a line, with commas between them, and goes on in a new line where a word would
pass the width; a word that is too long for any line stays. -/
def fill (indent width : Nat) (line : List Char) : List (List Char) → List Char
  | [] => line
  | word :: words =>
    let breaks := decide (width < line.length + word.length) && decide (indent < line.length)
    let start := if breaks then blanks indent else line
    (if breaks then trimEnd line ++ ['\n'] else []) ++
      match words with
      | [] => start ++ word
      | words => fill indent width (start ++ word ++ [',', ' ']) words

mutual

/-- The rows of a table with `axes` levels, whose lines start at the given indent. -/
def rows (f : Format) (axes indent width : Nat) : Nest (Option Single) → List Char
  | .leaf (some x) => f.cell x
  | .leaf none => ['.', '.', '.']
  | .row items =>
    let parts := rowsAll f (axes - 1) (indent + 1) (width - 1) items
    if axes ≤ 1 then
      '[' :: (fill indent (width - 1) (blanks indent) parts).drop indent ++ [']']
    else
      '[' :: List.intercalate (',' :: List.replicate (axes - 1) '\n' ++ blanks indent) parts ++ [']']

def rowsAll (f : Format) (axes indent width : Nat) :
    List (Nest (Option Single)) → List (List Char)
  | [] => []
  | n :: ns => rows f axes indent width n :: rowsAll f axes indent width ns

end

/-! ## The whole table -/

def opening : List Char := "array(".toList

def shapeText (shape : List Nat) : List Char :=
  match shape with
  | [n] => '(' :: Nat.toDigits 10 n ++ [',', ')']
  | shape => '(' :: List.intercalate [',', ' '] (shape.map (Nat.toDigits 10 ·)) ++ [')']

def cells (shape : List Nat) : Nat := shape.foldr (· * ·) 1

def body (shape : List Nat) (n : Nest Single) : List Char :=
  let layout := TableLayout.message
  if cells shape = 0 then ['[', ']']
  else
    let shown := if layout.most < cells shape then n.elide layout.edge else n.whole
    rows (.ofCells (shown.leaves.filterMap id)) shape.length (opening.length + 1)
      (layout.lineWidth - 1) shown

/-- The shape is given where the rows do not show it. -/
def notes (shape : List Nat) : List Char :=
  let hidden := (cells shape == 0 && shape != [0]) || TableLayout.message.most < cells shape
  (if hidden then "shape=".toList ++ shapeText shape ++ [',', ' '] else []) ++
    "dtype=float32)".toList

def chars (n : Nest Single) : List Char :=
  let shape := n.shape?.getD []
  let front := opening ++ body shape n ++ [',']
  let lastLine := front.reverse.takeWhile (· != '\n')
  let passes := TableLayout.message.lineWidth < lastLine.length + (notes shape).length + 1
  front ++ (if passes then '\n' :: blanks opening.length else [' ']) ++ notes shape

end Table

end Formulary
