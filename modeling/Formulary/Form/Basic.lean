import Formulary.Number.Numeral
import Formulary.Position

/-!
# Forms

Forms are untyped syntax: strings, numbers, symbol literals and lists of forms, each with the
position at which it starts. A bare form has a position and nothing else.

An induction on forms takes all items of a list at once. In pre-order, the forms inside a form
come in the order of the text.
-/
namespace Formulary

inductive NumberKind where
  | whole
  | real
  /-- A number of neither kind, which no text is read as. -/
  | other
deriving DecidableEq, Repr

inductive Form where
  | string (pos : Position) (value : List Char)
  | number (pos : Position) (literal : List Char) (kind : NumberKind)
  | symbol (pos : Position) (literal : List Char)
  | list (pos : Position) (items : List Form)
  | bare (pos : Position)
deriving Inhabited

namespace Form

def pos : Form → Position
  | .string p _ => p
  | .number p _ _ => p
  | .symbol p _ => p
  | .list p _ => p
  | .bare p => p

/-- A word is a number if it is a numeral and a symbol otherwise. -/
def ofWord (pos : Position) (text : List Char) : Form :=
  if Numeral.isNumeral text then
    .number pos text (if Numeral.isWhole text then .whole else .real)
  else .symbol pos text

@[elab_as_elim, induction_eliminator]
theorem induction {motive : Form → Prop} (string : ∀ pos value, motive (.string pos value))
    (number : ∀ pos literal kind, motive (.number pos literal kind))
    (symbol : ∀ pos literal, motive (.symbol pos literal))
    (list : ∀ pos items, (∀ form ∈ items, motive form) → motive (.list pos items))
    (bare : ∀ pos, motive (.bare pos)) (form : Form) : motive form :=
  @Form.rec motive (fun items => ∀ form ∈ items, motive form) string number symbol list bare
    (fun _ h => absurd h List.not_mem_nil)
    (fun _ _ hform hforms => List.forall_mem_cons.2 ⟨hform, hforms⟩) form

mutual

/-- The form and all forms inside it, in pre-order. -/
def preorder : Form → List Form
  | .list pos items => .list pos items :: preorderAll items
  | form => [form]

def preorderAll : List Form → List Form
  | [] => []
  | form :: forms => preorder form ++ preorderAll forms

end

end Form

end Formulary
