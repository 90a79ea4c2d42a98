import Formulary.Number.Numeral

/-!
# The text of numbers

A layout says which magnitudes are written positionally, whether an integral number keeps `.0`,
and how the special values are spelled. Every other number is written with one digit before the
point and an exponent of at least two digits.
-/
namespace Formulary

structure Layout where
  /-- The least power of ten that is written positionally. -/
  positionalFrom : Int
  /-- The least power of ten above that which is no longer written positionally. -/
  positionalBelow : Int
  keepPointZero : Bool
  nan : String
  positiveInfinity : String
  negativeInfinity : String

namespace Layout

/-- Formulas: positional up to `1e20`, integral numbers without a point. -/
def formula : Layout := ⟨-4, 21, false, "NaN", "+Inf", "-Inf"⟩

/-- Values shown in messages: positional up to `1e15`, integral numbers with `.0`. -/
def value : Layout := ⟨-4, 16, true, "nan", "inf", "-inf"⟩

/-- JSON documents: as values, with the special values spelled out. -/
def json : Layout := ⟨-4, 16, true, "NaN", "Infinity", "-Infinity"⟩

/-- The digits with the leading one at the power `m` of ten. -/
def positional (l : Layout) (ds : List Char) (m : Int) : List Char :=
  if m < 0 then '0' :: '.' :: List.replicate (-m - 1).toNat '0' ++ ds
  else if m.toNat + 1 < ds.length then ds.take (m.toNat + 1) ++ '.' :: ds.drop (m.toNat + 1)
  else ds ++ List.replicate (m.toNat + 1 - ds.length) '0' ++
    if l.keepPointZero then ['.', '0'] else []

/-- The power of ten that ends a number in scientific notation. -/
def exponent (m : Int) : List Char :=
  'e' :: (if m < 0 then '-' else '+') :: (Nat.toDigits 10 m.natAbs).leftpad 2 '0'

def scientific (ds : List Char) (m : Int) : List Char :=
  let fraction := ds.drop 1
  ds.take 1 ++ (if fraction = [] then [] else '.' :: fraction) ++ exponent m

/-- The text of a decimal. Whether it is positional hangs on the power of ten `scope`, which is
the magnitude of the number that the decimal stands for. -/
def decimal (l : Layout) (scope : Int) (d : Decimal) : List Char :=
  (if d.negative then ['-'] else []) ++
    if l.positionalFrom ≤ scope ∧ scope < l.positionalBelow then l.positional d.digits d.magnitude
    else scientific d.digits d.magnitude

variable {f : FloatFormat}

def special (l : Layout) : Binary f → List Char
  | .infinity false => l.positiveInfinity.toList
  | .infinity true => l.negativeInfinity.toList
  | _ => l.nan.toList

/-- The shortest text that is read back, positional according to the exact magnitude. -/
def byValue (l : Layout) : Binary f → List Char
  | .finite s r => l.decimal (Binary.exact f s r).magnitude (Binary.shortest f s r)
  | x => l.special x

/-- The text of the decimal that is shown for a number, positional according to the magnitude of
that decimal. -/
def byDigits (l : Layout) (x : Binary f) : List Char :=
  match Numeral.read? (value.byValue x) with
  | some d => l.decimal d.magnitude d
  | none => l.special x

end Layout

/-- The decimal text of an integer. -/
def intText (n : Int) : List Char :=
  if n < 0 then '-' :: Nat.toDigits 10 n.natAbs else Nat.toDigits 10 n.natAbs

/-- Whether the text of an integer keeps a limit. -/
def DigitLimit.admitsInt (limit : DigitLimit) (n : Int) : Bool :=
  limit.admits (Nat.toDigits 10 n.natAbs)

@[simp] theorem DigitLimit.admitsInt_none (n : Int) : admitsInt none n = true := rfl

end Formulary
