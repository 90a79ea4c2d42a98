/-!
# Positions in a source text

A position names a file, a line and a column, both counted from one; only a newline starts a
line, and columns count characters. A line index holds the offsets at which the lines of a text
start.
-/
namespace Formulary

structure Position where
  file : String := ""
  line : Nat := 1
  column : Nat := 1
deriving DecidableEq, Repr, Inhabited

def Position.text (p : Position) : String := s!"{p.file}:{p.line}:{p.column}"

structure LineIndex where
  file : String
  /-- The offsets of the lines, in increasing order; the first is zero. -/
  starts : List Nat

namespace LineIndex

/-- The offsets right after the newlines of a text that starts at `offset`. -/
def startsFrom (offset : Nat) : List Char → List Nat
  | [] => []
  | c :: cs => if c = '\n' then (offset + 1) :: startsFrom (offset + 1) cs else startsFrom (offset + 1) cs

def ofSource (file : String) (source : List Char) : LineIndex :=
  ⟨file, 0 :: startsFrom 0 source⟩

/-- The position of an offset: its line is the last one that starts at or before it. -/
def position (lines : LineIndex) (offset : Nat) : Position :=
  let before := lines.starts.takeWhile (· ≤ offset)
  ⟨lines.file, before.length, offset - before.getLastD 0 + 1⟩

end LineIndex

end Formulary
