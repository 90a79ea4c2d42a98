import Formulary.Path
import Formulary.Text.Basic

/-!
# Settings

Settings are texts from outside, each of which may be missing; a missing one counts as empty, and
an empty one leaves the default in force.
-/
namespace Formulary.Settings

/-! ## Levels of reporting -/

def levels : List (String × Int) :=
  [("NOTSET", 0), ("DEBUG", 10), ("INFO", 20), ("WARN", 30), ("WARNING", 30), ("ERROR", 40),
    ("CRITICAL", 50), ("FATAL", 50)]

def defaultLevel : Int := 30

/-- The capital of a letter, as far as it can occur in the name of a level: the dotless `i` and
the long `s` are letters whose capitals are plain. -/
def upper (c : Char) : Char :=
  if c = 'ı' then 'I' else if c = 'ſ' then 'S' else c.toUpper

/-- The level that a setting names, in letters of any case between blanks; what names none leaves
the default. -/
def level (value? : Option String) (default : Int) : Int :=
  let name := String.ofList ((Text.trim (value?.getD "").toList).map upper)
  (levels.lookup name).getD default

/-! ## Paths -/

/-- The paths that a setting lists, set off by colons; blank ones are left out. -/
def paths (value? : Option String) (defaults : List Path) : List Path :=
  match (value?.getD "").toList with
  | [] => defaults
  | cs => (((cs.splitOn ':').map Text.trim).filter (· != [])).map Path.ofChars

/-- The folder of the golden cases: the first path, or the folder around it if it is a file. -/
def casesRoot? (top : FileTree) (paths : List Path) : Option Path :=
  paths.head?.map fun p =>
    match top.find? p with
    | some place => if place.isFile then p.parent else p
    | none => p

end Formulary.Settings
