import Formulary.Text.Digit
import Formulary.Text.Printable

/-!
# Quoted text in messages

Error messages show texts and byte strings in quotes. The quote is a single one, unless the text
holds single quotes and no double ones. Backslashes, the quote in use and everything that cannot
be printed are escaped.
-/
namespace Formulary.Text

def singleQuote : Char := '\x27'

def doubleQuote : Char := '\x22'

/-- The quote that encloses a text with the given characters. -/
def quoteFor (cs : List Char) : Char :=
  if cs.contains singleQuote && !cs.contains doubleQuote then doubleQuote else singleQuote

/-- An escape by number takes two, four or eight hexadecimal digits, whichever is the first to
suffice. -/
def escapeCode (n : Nat) : List Char :=
  if n < 0x100 then '\\' :: 'x' :: hex 2 n
  else if n < 0x10000 then '\\' :: 'u' :: hex 4 n
  else '\\' :: 'U' :: hex 8 n

def escapeChar (quote c : Char) : List Char :=
  if c = quote ∨ c = '\\' then ['\\', c]
  else if c = '\n' then ['\\', 'n']
  else if c = '\r' then ['\\', 'r']
  else if c = '\t' then ['\\', 't']
  else if isPrintable c then [c]
  else escapeCode c.toNat

def quoted (cs : List Char) : List Char :=
  let quote := quoteFor cs
  quote :: cs.flatMap (escapeChar quote) ++ [quote]

/-- Bytes from 0x80 on are always shown by number. -/
def escapeByte (quote : Char) (b : UInt8) : List Char :=
  if b.toNat < 0x80 then escapeChar quote (Char.ofNat b.toNat) else escapeCode b.toNat

def quoteForBytes (bs : List UInt8) : Char := quoteFor (bs.map fun b => Char.ofNat b.toNat)

def quotedBytes (bs : List UInt8) : List Char :=
  let quote := quoteForBytes bs
  'b' :: quote :: bs.flatMap (escapeByte quote) ++ [quote]

/-- In a byte string that can be written to, single quotes are escaped whatever the quote. -/
def quotedBuffer (bs : List UInt8) : List Char :=
  let quote := quoteForBytes bs
  "bytearray(b".toList ++ quote :: bs.flatMap (escapeByte singleQuote) ++ [quote, ')']

end Formulary.Text
