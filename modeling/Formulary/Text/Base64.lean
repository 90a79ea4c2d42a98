/-!
# Base 64

Byte strings travel inside JSON documents as text of the standard alphabet, padded to a multiple
of four characters. Decoding ignores the unused bits of the last character, and padding after
complete groups.
-/
namespace Formulary.Text.Base64

def alphabet : List Char :=
  "ABCDEFGHIJKLMNOPQRSTUVWXYZabcdefghijklmnopqrstuvwxyz0123456789+/".toList

def letter (n : Nat) : Char :=
  alphabet.getD n 'A'

def value? (c : Char) : Option Nat :=
  if 'A' ≤ c ∧ c ≤ 'Z' then some (c.toNat - 65)
  else if 'a' ≤ c ∧ c ≤ 'z' then some (c.toNat - 71)
  else if '0' ≤ c ∧ c ≤ '9' then some (c.toNat + 4)
  else if c = '+' then some 62
  else if c = '/' then some 63
  else none

def encode : List UInt8 → List Char
  | [] => []
  | [a] =>
    let n := a.toNat
    [letter (n / 4), letter (n % 4 * 16), '=', '=']
  | [a, b] =>
    let n := a.toNat * 256 + b.toNat
    [letter (n / 1024), letter (n / 16 % 64), letter (n % 16 * 4), '=']
  | a :: b :: c :: rest =>
    let n := a.toNat * 65536 + b.toNat * 256 + c.toNat
    letter (n / 262144) :: letter (n / 4096 % 64) :: letter (n / 64 % 64) :: letter (n % 64) ::
      encode rest

def byte (n : Nat) : UInt8 := UInt8.ofNat (n % 256)

/-- The bytes of a run of six-bit values followed by `padding` pad characters. -/
def decodeValues (padding : Nat) : List Nat → Option (List UInt8)
  | [] => some []
  | [_] => none
  | [a, b] => if padding = 2 then some [byte (a * 4 + b / 16)] else none
  | [a, b, c] =>
    if padding = 1 then some [byte (a * 4 + b / 16), byte (b * 16 + c / 4)] else none
  | a :: b :: c :: d :: rest =>
    (decodeValues padding rest).map fun bs =>
      byte (a * 4 + b / 16) :: byte (b * 16 + c / 4) :: byte (c * 64 + d) :: bs

def decode? (cs : List Char) : Option (List UInt8) :=
  let values := cs.takeWhile fun c => (value? c).isSome
  let padding := cs.dropWhile fun c => (value? c).isSome
  if padding.all (· == '=') && (padding.isEmpty || !values.isEmpty) then
    decodeValues padding.length (values.filterMap value?)
  else none

end Formulary.Text.Base64
