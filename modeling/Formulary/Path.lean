/-!
# Paths of files

A path has a root and the names of the steps that lead from it. Empty names and the step to the
same place are dropped when a path is read; a step back is kept, because it can be taken back only
by looking at the files themselves.
-/
namespace Formulary

/-- Where a path begins. Two slashes are a root of their own; more than two count as one. -/
inductive PathRoot where
  | here
  | top
  | doubled
deriving DecidableEq, Repr

namespace PathRoot

def ofSlashes : Nat → PathRoot
  | 0 => .here
  | 2 => .doubled
  | _ => .top

def chars : PathRoot → List Char
  | .here => []
  | .top => ['/']
  | .doubled => ['/', '/']

end PathRoot

structure Path where
  root : PathRoot
  steps : List (List Char)
deriving DecidableEq, Repr

namespace Path

/-- Whether a name says where to go. -/
def isStep (name : List Char) : Bool := name != [] && name != ['.']

def ofChars (cs : List Char) : Path :=
  ⟨.ofSlashes (cs.takeWhile (· == '/')).length, (cs.splitOn '/').filter isStep⟩

/-- The text of a path; a path that leads nowhere else is written as a dot. -/
def chars (p : Path) : List Char :=
  match p.root.chars ++ List.intercalate ['/'] p.steps with
  | [] => ['.']
  | cs => cs

def parent (p : Path) : Path := { p with steps := p.steps.dropLast }

end Path

inductive FileTree where
  | file
  | folder (entries : List (List Char × FileTree))

namespace FileTree

def isFile : FileTree → Bool
  | .file => true
  | .folder _ => false

/-- Takes some steps from a place; the folders above it, the nearest first, are where steps back
lead. Above the top there is only the top. -/
def walk? : List FileTree → FileTree → List (List Char) → Option FileTree
  | _, place, [] => some place
  | _, .file, _ :: _ => none
  | above, .folder entries, name :: names =>
    if name = ['.', '.'] then
      match above with
      | [] => walk? [] (.folder entries) names
      | place :: above => walk? above place names
    else
      match entries.lookup name with
      | none => none
      | some place => walk? (.folder entries :: above) place names

/-- What a path leads to. Of the place where relative paths begin nothing is known. -/
def find? (top : FileTree) (p : Path) : Option FileTree :=
  if p.root = .here then none else walk? [] top p.steps

end FileTree

end Formulary
