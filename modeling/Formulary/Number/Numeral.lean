import Formulary.Number.Decimal
import Formulary.Text.Basic
import Formulary.Text.Digit

/-!
# Numerals

The grammar of numbers in formulas: an optional sign, digits with at most one point among, before
or after them, and an optional power of ten. `Numeral.read?` gives the decimal that a numeral
denotes. The looser readings `intLiteral?` and `floatLiteral?` also take white space at the ends and
single underscores between digits, and the latter the names of the special values.
-/
namespace Formulary.Numeral

open Text

/-- The sign in front, read as "is negative", and what follows it. -/
def sign : List Char → Bool × List Char
  | '+' :: cs => (false, cs)
  | '-' :: cs => (true, cs)
  | cs => (false, cs)

/-- The power of ten that ends a numeral: nothing, or `e` and a signed run of digits. -/
def exponent? : List Char → Option Int
  | [] => some 0
  | c :: cs =>
    let (negative, ds) := sign cs
    if (c = 'e' ∨ c = 'E') ∧ ds ≠ [] ∧ ds.all isDigit then
      some (if negative then -(digitsValue ds : Int) else digitsValue ds)
    else none

/-- The digits before the point, those after it, and the rest. -/
def body (cs : List Char) : List Char × List Char × List Char :=
  match cs.dropWhile isDigit with
  | '.' :: rest => (cs.takeWhile isDigit, rest.takeWhile isDigit, rest.dropWhile isDigit)
  | rest => (cs.takeWhile isDigit, [], rest)

/-- The decimal denoted by a numeral, if the text is one. -/
def read? (cs : List Char) : Option Decimal :=
  let (negative, unsigned) := sign cs
  let (whole, fraction, rest) := body unsigned
  if whole = [] ∧ fraction = [] then none
  else (exponent? rest).map fun e => ⟨negative, digitsValue (whole ++ fraction), e - fraction.length⟩

def isNumeral (cs : List Char) : Bool := (read? cs).isSome

/-- A numeral without point and exponent is a whole number. -/
def isWhole (cs : List Char) : Bool := !cs.any fun c => c == '.' || c == 'e' || c == 'E'

/-- The text without its underscores, each of which must stand between two digits. -/
def dropUnderscores? : Option Char → List Char → Option (List Char)
  | _, [] => some []
  | previous, '_' :: cs =>
    if previous.any isDigit && cs.head?.any isDigit then dropUnderscores? (some '_') cs else none
  | _, c :: cs => (dropUnderscores? (some c) cs).map (c :: ·)

/-- The integer written by an optional sign and not too many digits. -/
def int? (cs : List Char) : Option Int :=
  let (negative, ds) := sign cs
  if ds ≠ [] ∧ ds.all isDigit ∧ DigitLimit.standard.admits ds then
    some (if negative then -(digitsValue ds : Int) else digitsValue ds)
  else none

def intLiteral? (cs : List Char) : Option Int :=
  (dropUnderscores? none (trimBy isSpace cs)).bind int?

def special? (cs : List Char) : Option Double :=
  let (negative, name) := sign cs
  match String.ofList (name.map Char.toLower) with
  | "inf" | "infinity" => some (.infinity negative)
  | "nan" => some .nan
  | _ => none

def floatLiteral? (cs : List Char) : Option Double :=
  (dropUnderscores? none (trimBy isSpace cs)).bind fun cs =>
    (special? cs).or ((read? cs).map (Binary.ofDecimal .double))

end Formulary.Numeral
