/-!
# Binary floating-point numbers

The finite numbers of a binary format are multiples of one unit, the least positive number. Put
in increasing order, the non-negative ones are counted by their rank: the first binades of ranks
count single units, and every further binade doubles the distance between neighbours. A number is
thus a sign and a rank, each number has one representation, and arithmetic is done exactly on
multiples of the unit and rounded once.
-/
namespace Formulary

/-- A format is given by the bits of its fraction, by the number of its binades of finite numbers
and by the unit `2 ^ -scale`. -/
structure FloatFormat where
  fractionBits : Nat
  binades : Nat
  scale : Nat

namespace FloatFormat

def double : FloatFormat := ⟨52, 2047, 1074⟩

def single : FloatFormat := ⟨23, 255, 149⟩

def half : FloatFormat := ⟨10, 31, 24⟩

def perBinade (f : FloatFormat) : Nat := Nat.pow 2 f.fractionBits

/-- How many non-negative finite numbers there are. -/
def count (f : FloatFormat) : Nat := f.binades * f.perBinade

/-- The number of the given rank, as a multiple of the unit. -/
def units (f : FloatFormat) (rank : Nat) : Nat :=
  if rank < f.perBinade then rank
  else (f.perBinade + rank % f.perBinade) * Nat.pow 2 (rank / f.perBinade - 1)

end FloatFormat

/-- The quotient rounded to the nearest integer, and to the even one of two that are equally
near. -/
def roundHalfEven (num den : Nat) : Nat :=
  let q := num / den
  let r := num % den
  if 2 * r < den then q else if den < 2 * r then q + 1 else q + q % 2

/-- The rank nearest to `num / den` units. Ranks from `count` on lie beyond the finite numbers. -/
def FloatFormat.nearest (f : FloatFormat) (num den : Nat) : Nat :=
  let k := (num / den).log2 - f.fractionBits
  k * f.perBinade + roundHalfEven num (den * Nat.pow 2 k)

/-- A number of the format `f`, with one value that is not a number. -/
inductive Binary (f : FloatFormat) where
  | nan
  | infinity (negative : Bool)
  | finite (negative : Bool) (rank : Fin f.count)
deriving DecidableEq

abbrev Double := Binary .double

abbrev Single := Binary .single

abbrev Half := Binary .half

namespace Binary

variable {f g : FloatFormat}

/-- The number nearest to `num / den` units with the given sign; infinite if it lies beyond the
finite numbers. -/
def ofRatio (f : FloatFormat) (negative : Bool) (num den : Nat) : Binary f :=
  if h : f.nearest num den < f.count then .finite negative ⟨f.nearest num den, h⟩
  else .infinity negative

def zero (f : FloatFormat) (negative : Bool) : Binary f := ofRatio f negative 0 1

/-- The number nearest to an integer, if that lies within the finite numbers. -/
def ofInt? (f : FloatFormat) (n : Int) : Option (Binary f) :=
  match ofRatio f (n < 0) (n.natAbs * Nat.pow 2 f.scale) 1 with
  | .finite s r => some (.finite s r)
  | _ => none

def units? : Binary f → Option Int
  | .finite negative r => some (if negative then -(f.units r : Int) else f.units r)
  | _ => none

def convert (g : FloatFormat) : Binary f → Binary g
  | .nan => .nan
  | .infinity s => .infinity s
  | .finite s r => ofRatio g s (f.units r * Nat.pow 2 g.scale) (Nat.pow 2 f.scale)

def neg : Binary f → Binary f
  | .nan => .nan
  | .infinity s => .infinity !s
  | .finite s r => .finite (!s) r

/-- The exact sum rounded once. A sum of zero is positive unless both terms are negative. -/
def add : Binary f → Binary f → Binary f
  | .nan, _ => .nan
  | _, .nan => .nan
  | .infinity s, .infinity t => if s = t then .infinity s else .nan
  | .infinity s, .finite _ _ => .infinity s
  | .finite _ _, .infinity t => .infinity t
  | .finite s a, .finite t b =>
    let sum : Int := (if s then -(f.units a : Int) else f.units a) +
      (if t then -(f.units b : Int) else f.units b)
    if sum = 0 then zero f (s && t) else ofRatio f (sum < 0) sum.natAbs 1

def sub (x y : Binary f) : Binary f := add x y.neg

/-- Equality of numbers: the two zeros are equal, and `nan` equals nothing. -/
def sameNumber : Binary f → Binary f → Bool
  | .infinity s, .infinity t => s == t
  | .finite s a, .finite t b => (f.units a == 0 && f.units b == 0) || (s == t && a == b)
  | _, _ => false

def isInt (x : Binary f) (n : Int) : Bool :=
  x.units? == some (n * Nat.pow 2 f.scale)

def isZero : Binary f → Bool
  | .finite _ r => r.val == 0
  | _ => false

def signBit (f : FloatFormat) : Nat := (f.binades + 1) * f.perBinade

/-- The interchange encoding: the rank, with the sign as the highest bit. -/
def toBits : Binary f → Nat
  | .nan => f.count + f.perBinade / 2
  | .infinity s => f.count + if s then signBit f else 0
  | .finite s r => r + if s then signBit f else 0

def ofBits (f : FloatFormat) (bits : Nat) : Binary f :=
  let s := signBit f ≤ bits
  let r := bits % signBit f
  if h : r < f.count then .finite s ⟨r, h⟩ else if r = f.count then .infinity s else .nan

end Binary

end Formulary
