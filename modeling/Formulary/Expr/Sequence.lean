import Formulary.Expr.Basic

/-!
# Elements and slices of lists

Indices count from the front, or with a minus sign from the back. A slice runs from a first index
to just before a last one in steps, which may go backwards; bounds beyond the list are moved to
its ends.
-/
namespace Formulary.Sequence

variable {α : Type}

def nth? (xs : List α) (i : Int) : Option α :=
  if 0 ≤ i then xs[i.toNat]?
  else if -(xs.length : Int) ≤ i then xs[(xs.length + i).toNat]?
  else none

/-- A bound of a slice, counted from the front and moved into `lo .. hi`. -/
def clamp (length : Nat) (lo hi i : Int) : Int :=
  max lo (min hi (if i < 0 then i + length else i))

def indices (length : Nat) (start stop : Option Int) (step : Int) : List Int :=
  let n : Int := length
  let (first, last) :=
    if 0 < step then ((start.map (clamp length 0 n)).getD 0, (stop.map (clamp length 0 n)).getD n)
    else ((start.map (clamp length (-1) (n - 1))).getD (n - 1),
      (stop.map (clamp length (-1) (n - 1))).getD (-1))
  let count := if 0 < step then (last - first + step - 1) / step else (first - last - step - 1) / -step
  (List.range count.toNat).map fun (k : Nat) => first + k * step

/-- A slice of a list; there is none with steps of size zero. -/
def slice? (xs : List α) (start stop step : Option Int) : Option (List α) :=
  if step = some 0 then none
  else some ((indices xs.length start stop (step.getD 1)).filterMap fun i => xs[i.toNat]?)

end Formulary.Sequence
