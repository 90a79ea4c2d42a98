/-!
# Text

Blanks separate tokens and are trimmed from the ends of settings and of formulas. They are the
white space of the Unicode standard together with the four separators U+001C to U+001F; a numeral
may have only the white space around it.

A line can end with a line feed, a carriage return or both. Texts from files are brought to the
first of these.

A piece of text is given by what becomes of a text when the piece is put in front of it. Pieces
are joined without copying what has been written, so that deeply nested texts are written in one
pass.
-/
namespace Formulary.Text

/-- White space by the Unicode standard. -/
def isSpace (c : Char) : Bool :=
  let n := c.toNat
  (9 ≤ n && n ≤ 13) || n == 0x20 || n == 0x85 || n == 0xA0 || n == 0x1680 ||
    (0x2000 ≤ n && n ≤ 0x200A) || n == 0x2028 || n == 0x2029 || n == 0x202F || n == 0x205F ||
    n == 0x3000

def isBlank (c : Char) : Bool :=
  isSpace c || (0x1C ≤ c.toNat && c.toNat ≤ 0x1F)

/-- The text without the characters of a class at its two ends. -/
def trimBy (p : Char → Bool) (cs : List Char) : List Char :=
  ((cs.dropWhile p).reverse.dropWhile p).reverse

def trim (cs : List Char) : List Char := trimBy isBlank cs

/-- Writes every line end as a single line feed: a carriage return counts as one, together with a
line feed that follows it. -/
def unifyLineEnds : List Char → List Char
  | [] => []
  | '\r' :: '\n' :: cs => '\n' :: unifyLineEnds cs
  | '\r' :: cs => '\n' :: unifyLineEnds cs
  | c :: cs => c :: unifyLineEnds cs

abbrev Piece := List Char → List Char

/-- The pieces with a separator between each two. -/
def separated (separator : List Char) : List Piece → Piece
  | [] => id
  | [piece] => piece
  | piece :: pieces => fun rest => piece (separator ++ separated separator pieces rest)

end Formulary.Text
