import Formulary.Expr.Basic

/-!
# The text of expressions

The printer writes what the reader takes: integers in decimal, doubles with the fewest digits
that are read back, strings in double quotes, symbols by their canonical text, and lists in
parentheses with one space between elements. Byte strings have no literal and are shown as in
messages.
-/
namespace Formulary

/-- Control characters without a short escape are written by number. -/
def escapeInString (c : Char) : List Char :=
  if c = '\x22' ∨ c = '\\' then ['\\', c]
  else if c = '\n' then ['\\', 'n']
  else if c = '\t' then ['\\', 't']
  else if c = '\r' then ['\\', 'r']
  else if c.toNat < 0x20 ∨ c.toNat = 0x7F then '\\' :: 'x' :: Text.hex 2 c.toNat
  else [c]

def quoteString (cs : List Char) : List Char :=
  '\x22' :: cs.flatMap escapeInString ++ ['\x22']

namespace Atom

def chars : Atom → List Char
  | .bool b => (if b then "true" else "false").toList
  | .int _ n => intText n
  | .single x => Layout.formula.byDigits x
  | .double x => Layout.formula.byDigits x
  | .bytes bs => Text.quotedBytes bs
  | .string s => quoteString s.toList
  | .symbol s => s.chars

end Atom

namespace Expr

mutual

def chars : Expr → List Char
  | .atom _ a => a.chars
  | .list _ es => '(' :: List.intercalate [' '] (charsAll es) ++ [')']

def charsAll : List Expr → List (List Char)
  | [] => []
  | e :: es => chars e :: charsAll es

end

def text (e : Expr) : String := String.ofList e.chars

def listText (es : List Expr) : String := (Expr.list none es).text

def display (e : Expr) : String := s!"Expression({e.text})"

end Expr

end Formulary
