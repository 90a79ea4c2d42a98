import Formulary.Expr.Parser
import Formulary.Program.Compile
import Formulary.Program.Message
import Formulary.Session
import Formulary.Text.Basic

/-!
# Golden cases

A golden case is a formula in a file together with what compiling it should give, in a second file
beside it. What is recorded of a compilation is the program without source contexts, or the kind
of the failure.
-/
namespace Formulary

abbrev Folder := List (String × String)

structure GoldenCase where
  name : String
  formula : String
  golden? : Option Message := none
  /-- What compiling the formula gives now. -/
  regenerated? : Option Message := none

namespace GoldenCase

def formulaSuffix : String := ".formula"

def goldenSuffix : String := ".golden.json"

def goldenFile (c : GoldenCase) : String := c.name ++ goldenSuffix

/-- The name of the case in a file, if it holds one. -/
def caseName? (file : String) : Option String :=
  let suffix := formulaSuffix.toList
  if suffix.isSuffixOf file.toList then
    some (String.ofList (file.toList.take (file.toList.length - suffix.length)))
  else none

/-- The record of compiling a formula. A failure that is not the library's own is not recorded. -/
def record (formula : String) : Except Failure Message := do
  let compiled : Except Failure Node := do
    let e ← (Expr.parse "" formula.toList).mapError (·.failure)
    (e.compile .standard).mapError (·.failure)
  let result ← match compiled with
    | .ok node => .ok ("ast", node.toMessage false)
    | .error f => if f.kind.isOwn then .ok ("error", .str f.kind.name) else .error f
  return .object [("input_formula", .str formula), result]

def regenerate (c : GoldenCase) : Except Failure GoldenCase := do
  return { c with regenerated? := some (← record c.formula) }

/-- Whether the recorded result is the present one; two missing ones agree. -/
def isMatch (c : GoldenCase) : Bool :=
  match c.golden?, c.regenerated? with
  | none, none => true
  | some a, some b => a.same b
  | _, _ => false

end GoldenCase

namespace Folder

open GoldenCase

/-- The content of a file, with line ends made one. -/
def read? (folder : Folder) (file : String) : Option String :=
  (folder.lookup file).map fun content => String.ofList (Text.unifyLineEnds content.toList)

def case? (folder : Folder) (file : String) : Option GoldenCase := do
  let name ← caseName? file
  let content ← folder.read? file
  return { name, formula := String.ofList (Text.trim content.toList) }

def cases (folder : Folder) : List GoldenCase :=
  ((folder.map (·.1)).mergeSort fun a b => decide (a ≤ b)).filterMap folder.case?

def loadGolden (folder : Folder) (c : GoldenCase) : Except Failure GoldenCase := do
  let some content := folder.read? c.goldenFile | .error ⟨.missingFile, none⟩
  let golden ← (Message.load content).mapError (·.failure)
  return { c with golden? := some golden }

/-- The cases of a folder. All records are read before the first formula is compiled. -/
def load (folder : Folder) (regenerates loadsGoldens : Bool) :
    Except Failure (List GoldenCase) := do
  let cases ← if loadsGoldens then folder.cases.mapM folder.loadGolden else .ok folder.cases
  if regenerates then cases.mapM regenerate else .ok cases

end Folder

namespace GoldenCase

def complete (c : GoldenCase) : Except Failure GoldenCase :=
  if c.regenerated?.isSome then .ok c else c.regenerate

def written (c : GoldenCase) : String × String :=
  (c.goldenFile, (c.regenerated?.getD .null).write (some 2) ++ "\n")

end GoldenCase

end Formulary
