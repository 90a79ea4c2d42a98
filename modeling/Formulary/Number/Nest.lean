/-!
# Nested rows

A nest is a single item or a row of nests. It is rectangular if all nests of a row have the same
shape, and its shape then lists the lengths of the rows from the outside in.
-/
namespace Formulary

inductive Nest (α : Type) where
  | leaf (a : α)
  | row (items : List (Nest α))

namespace Nest

variable {α β : Type}

mutual

/-- The shape of a rectangular nest. -/
def shape? : Nest α → Option (List Nat)
  | .leaf _ => some []
  | .row items => (commonShape? items).map (items.length :: ·)

/-- The shape that all nests of a row have; in an empty row nothing stands below the row. -/
def commonShape? : List (Nest α) → Option (List Nat)
  | [] => some []
  | [n] => shape? n
  | n :: ns => do
    let s ← shape? n
    let t ← commonShape? ns
    if s = t then some s else none

end

mutual

/-- The items from left to right. -/
def leaves : Nest α → List α
  | .leaf a => [a]
  | .row items => leavesAll items

def leavesAll : List (Nest α) → List α
  | [] => []
  | n :: ns => leaves n ++ leavesAll ns

end

mutual

/-- Converts the items from left to right; the first that cannot be converted is reported. -/
def mapLeaves {ε : Type} (f : α → Except ε β) : Nest α → Except ε (Nest β)
  | .leaf a => (f a).map .leaf
  | .row items => (mapLeavesAll f items).map .row

def mapLeavesAll {ε : Type} (f : α → Except ε β) : List (Nest α) → Except ε (List (Nest β))
  | [] => .ok []
  | n :: ns => do
    let m ← mapLeaves f n
    let ms ← mapLeavesAll f ns
    return m :: ms

end

mutual

/-- Leaves a gap in every row that is longer than twice `edge`, between its first and its last
`edge` nests. -/
def elide (edge : Nat) : Nest α → Nest (Option α)
  | .leaf a => .leaf (some a)
  | .row items =>
    let shown := elideAll edge items
    if 2 * edge < shown.length then
      .row (shown.take edge ++ .leaf none :: shown.drop (shown.length - edge))
    else .row shown

def elideAll (edge : Nat) : List (Nest α) → List (Nest (Option α))
  | [] => []
  | n :: ns => elide edge n :: elideAll edge ns

end

mutual

/-- The nest without gaps. -/
def whole : Nest α → Nest (Option α)
  | .leaf a => .leaf (some a)
  | .row items => .row (wholeAll items)

def wholeAll : List (Nest α) → List (Nest (Option α))
  | [] => []
  | n :: ns => whole n :: wholeAll ns

end

end Nest

end Formulary
