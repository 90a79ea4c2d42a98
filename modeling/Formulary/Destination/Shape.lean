import Formulary.Destination.Basic
import Formulary.Expr.Parser

/-!
# Record shapes

A record is declared by its fields. Each field takes the element of a list at its position: its
place among the fields, or the integer of its tag. At most one field is tagged `&rest` and takes
every element from its place on. Compiling a declaration gives its slots and the lengths of the
lists that fit.
-/
namespace Formulary

structure FieldDecl where
  name : String
  type : Destination
  /-- The text of the tag; an empty text is no tag. -/
  tag : String := ""
  /-- Whether the field is set from the list at all. -/
  isBound : Bool := true

structure RecordDecl where
  name : String
  fields : List FieldDecl

/-- The declarations that can refer to one another. -/
abbrev Family := List RecordDecl

structure Slot where
  field : String
  type : Destination
  position : Nat
  isRest : Bool

structure Shape where
  name : String
  slots : List Slot

inductive ShapeError where
  | unresolved (record name : String)
  | badTag (record field : String) (cause : ParseError)
  | unknownTag (record field : String) (tag : Expr)
  | secondRest (record field : String)

namespace ShapeError

def kind : ShapeError → FailureKind
  | .badTag _ _ cause => if cause.kind.isOwn then .shape else cause.kind
  | _ => .shape

def message : ShapeError → String
  | .unresolved record name =>
    s!"cannot resolve field types of {record}: name '{name}' is not defined"
  | .badTag record field cause =>
    s!"field tag parse failed for {record}: {badTagText field}: {cause.message}"
  | .unknownTag record field tag =>
    s!"field tag parse failed for {record}: {badTagText field}: want a non-negative integer or &rest, got {tag.text}"
  | .secondRest record field =>
    s!"field tag parse failed for {record}: field {field} cannot have &rest designator; there is already a &rest field in the record"
where
  badTagText (field : String) : String :=
    "bad \"sexpr\" tag for field " ++ String.ofList (Text.quoted field.toList)

end ShapeError

namespace Slot

/-- How long a list must be for the slot to be filled. -/
def needed (s : Slot) : Nat := if s.isRest then s.position else s.position + 1

/-- What a slot takes from a list: the element at its position, or all elements from there on. -/
def component? (slot : Slot) (es : List Expr) : Option Expr :=
  if slot.isRest then some (.list none (es.drop slot.position)) else es[slot.position]?

end Slot

namespace Shape

def minLength (s : Shape) : Nat := s.slots.foldl (fun n slot => max n slot.needed) 0

def hasRest (s : Shape) : Bool := s.slots.any (·.isRest)

/-- The greatest length that fits; with a `&rest` field there is none. -/
def maxLength? (s : Shape) : Option Nat := if s.hasRest then none else some s.minLength

def display (s : Shape) : String :=
  let most := match s.maxLength? with
    | some n => toString n
    | none => "inf"
  s!"<RecordBinder {s.name} len=[{s.minLength}, {most}]>"

end Shape

namespace RecordDecl

def restMarker : Symbol := ⟨"&rest", ""⟩

/-- The slot of the field at the given place among the bound ones. -/
def slot (record : String) (place : Nat) (hasRest : Bool) (f : FieldDecl) :
    Except ShapeError Slot :=
  let type := f.type.plainly
  if f.tag = "" then .ok ⟨f.name, type, place, false⟩
  else
    match Expr.parse "" f.tag.toList with
    | .error cause => .error (.badTag record f.name cause)
    | .ok (.atom source (.int kind n)) =>
      if 0 ≤ n then .ok ⟨f.name, type, n.toNat, false⟩
      else .error (.unknownTag record f.name (.atom source (.int kind n)))
    | .ok tag =>
      if tag.symbol? = some restMarker then
        if hasRest then .error (.secondRest record f.name) else .ok ⟨f.name, type, place, true⟩
      else .error (.unknownTag record f.name tag)

def slots (record : String) (place : Nat) (hasRest : Bool) :
    List FieldDecl → Except ShapeError (List Slot)
  | [] => .ok []
  | f :: fs => do
    let s ← slot record place hasRest f
    let ss ← slots record (place + 1) (hasRest || s.isRest) fs
    return s :: ss

/-- The shape of a declaration whose record types must all be declared in the family. -/
def compile (family : Family) (d : RecordDecl) : Except ShapeError Shape :=
  let names := d.fields.flatMap (·.type.records)
  match names.find? fun name => !family.any (·.name == name) with
  | some name => .error (.unresolved d.name name)
  | none => (slots d.name 0 false (d.fields.filter (·.isBound))).map (⟨d.name, ·⟩)

end RecordDecl

namespace Family

def shape (family : Family) (name : String) : Except ShapeError Shape :=
  match family.find? (·.name == name) with
  | some d => d.compile family
  | none => .error (.unresolved name name)

def size (family : Family) : Nat :=
  (family.flatMap (·.fields)).foldr (fun field n => field.type.size + n) 0

end Family

end Formulary
