import Formulary.Number.Binary

/-!
# Decimal numbers and binary ones

A decimal is a sign, a coefficient and a power of ten. `Binary.ofDecimal` reads a decimal as the
nearest binary number, and `Binary.shortest` finds the decimal with the fewest digits that is
read back as a given number.
-/
namespace Formulary

structure Decimal where
  negative : Bool
  coefficient : Nat
  exponent : Int
deriving DecidableEq, Repr

namespace Decimal

/-- The significant digits: the coefficient without its trailing zeros. -/
def digits (d : Decimal) : List Char :=
  match ((Nat.toDigits 10 d.coefficient).reverse.dropWhile (· == '0')).reverse with
  | [] => ['0']
  | ds => ds

/-- The power of ten of the leading digit; zero has the power 0. -/
def magnitude (d : Decimal) : Int :=
  if d.coefficient = 0 then 0 else (Nat.toDigits 10 d.coefficient).length - 1 + d.exponent

end Decimal

namespace Binary

variable {f : FloatFormat}

/-- The binary number nearest to a decimal. A decimal whose leading digit stands far beyond the
reach of the format is recognised without computing the power of ten: `8 ^ k` is at most
`10 ^ k`. -/
def ofDecimal (f : FloatFormat) (d : Decimal) : Binary f :=
  let m := d.magnitude
  if d.coefficient = 0 ∨ 3 * (m + 1) + f.scale + 1 ≤ 0 then zero f d.negative
  else if 0 ≤ m ∧ (f.fractionBits + f.binades : Int) ≤ 3 * m + f.scale + 1 then
    .infinity d.negative
  else if 0 ≤ d.exponent then
    ofRatio f d.negative (d.coefficient * Nat.pow 10 d.exponent.toNat * Nat.pow 2 f.scale) 1
  else ofRatio f d.negative (d.coefficient * Nat.pow 2 f.scale) (Nat.pow 10 (-d.exponent).toNat)

/-- The exact value of the finite number of the given rank: the unit is `5 ^ scale / 10 ^ scale`. -/
def exact (f : FloatFormat) (negative : Bool) (rank : Nat) : Decimal :=
  ⟨negative, f.units rank * Nat.pow 5 f.scale, -f.scale⟩

/-- Of the two decimals of `n` digits next to the exact value `d`, the one that is read back as
`x`; of two such ones the nearer, and of two equally near ones the even one. -/
def withDigits? (x : Binary f) (d : Decimal) (n : Nat) : Option Decimal :=
  let len := (Nat.toDigits 10 d.coefficient).length
  let p := Nat.pow 10 (len - n)
  let q := d.coefficient / p
  let r := d.coefficient % p
  let below : Decimal := ⟨d.negative, q, d.exponent + (len - n : Nat)⟩
  let above : Decimal := ⟨d.negative, q + 1, d.exponent + (len - n : Nat)⟩
  match decide (ofDecimal f below = x), decide (ofDecimal f above = x) with
  | true, true => if 2 * r < p ∨ (2 * r = p ∧ q % 2 = 0) then some below else some above
  | true, false => some below
  | false, true => some above
  | false, false => none

/-- The shortest decimal that is read back as the number of the given sign and rank. Seventeen
digits suffice for doubles; the exact value stands in for formats that would need more. -/
def shortest (f : FloatFormat) (negative : Bool) (rank : Fin f.count) : Decimal :=
  let d := exact f negative rank
  ((List.range 17).findSome? fun n => withDigits? (.finite negative rank) d (n + 1)).getD d

end Binary

end Formulary
