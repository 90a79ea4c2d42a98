/-!
# Kinds of integers

Integers travel under ten kinds, which differ in width and in how a binary encoding would lay
them out. A kind admits the signed or unsigned integers of its width.
-/
namespace Formulary

inductive IntKind where
  | int32 | int64 | uint32 | uint64 | sint32 | sint64 | fixed32 | fixed64 | sfixed32 | sfixed64
deriving DecidableEq, Repr

namespace IntKind

def all : List IntKind :=
  [int32, int64, uint32, uint64, sint32, sint64, fixed32, fixed64, sfixed32, sfixed64]

def name : IntKind → String
  | int32 => "int32"
  | int64 => "int64"
  | uint32 => "uint32"
  | uint64 => "uint64"
  | sint32 => "sint32"
  | sint64 => "sint64"
  | fixed32 => "fixed32"
  | fixed64 => "fixed64"
  | sfixed32 => "sfixed32"
  | sfixed64 => "sfixed64"

def min : IntKind → Int
  | int32 | sint32 | sfixed32 => -2147483648
  | int64 | sint64 | sfixed64 => -9223372036854775808
  | uint32 | fixed32 | uint64 | fixed64 => 0

def max : IntKind → Int
  | int32 | sint32 | sfixed32 => 2147483647
  | int64 | sint64 | sfixed64 => 9223372036854775807
  | uint32 | fixed32 => 4294967295
  | uint64 | fixed64 => 18446744073709551615

def contains (k : IntKind) (n : Int) : Bool := k.min ≤ n && n ≤ k.max

/-- The words for an integer out of range. An integer beyond the limit of digits has none: the error
that should show it is a fault of its value. -/
def outOfRange (k : IntKind) (n : Int) : String :=
  s!"{n} out of range for {k.name} [{k.min}, {k.max}]"

end IntKind

end Formulary
