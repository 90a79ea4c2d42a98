import Formulary.Destination.Shape
import Formulary.Native
import Formulary.Outcome

/-!
# Binding expressions to destinations

Binding takes an expression apart according to a destination type. A custom binder that is
registered for the type goes first; then the value of the expression is taken if it belongs to
the type; then an optional type is bound as its target, a record by its slots and a sequence
element by element. An error names the way to the part that does not fit.
-/
namespace Formulary

inductive BindError where
  | unassignable (type : Destination) (e : Expr)
  | fixedTuple (type : Destination)
  | notSequence (type : Destination) (e : Expr)
  | inElement (index : Nat) (type : Destination) (cause : BindError)
  | notRecord (record : String) (e : Expr)
  | tooShort (got least : Nat) (e : Expr)
  | tooLong (got most : Nat) (e : Expr)
  | outOfBounds (field : String) (position : Nat) (e : Expr)
  | inRest (field : String) (position : Nat) (cause : BindError)
  | inField (field : String) (position : Nat) (cause : BindError)
  | shape (cause : ShapeError)
  | noExpr (type : Destination)
  | custom (message : String)
  /-- The fuel ran out: the binding does not end. -/
  | unfinished

namespace BindError

def kind : BindError → FailureKind
  | .shape cause => cause.kind
  | .unfinished => .recursion
  | _ => .binding

/-- Whether a caller wraps the error into its own; what is not the library's passes through. -/
def isPlaceable (e : BindError) : Bool := e.kind.isOwn

def quotedField (field : String) : String := String.ofList (Text.quoted field.toList)

def message : BindError → String
  | .unassignable type e =>
    s!"dst type {type.quotedName} cannot be bound by expression {e.text} (with value type '{e.native.typeName}')"
  | .fixedTuple type => s!"binding {type.quotedName} not yet supported"
  | .notSequence type e => s!"cannot bind {type.name} from a non-list expression, got {e.text}"
  | .inElement index type cause =>
    s!"failed to bind to element [{index}] of {type.name}: {cause.message}"
  | .notRecord record e =>
    s!"cannot bind expression into {record} unless it is a list, got {e.text}"
  | .tooShort got least e =>
    s!"cannot destructure expression: got length {got}, want >={least}: {e.text}"
  | .tooLong got most e =>
    s!"cannot destructure expression: got length {got}, want <={most}: {e.text}"
  | .outOfBounds field position e =>
    s!"cannot set field {quotedField field}; index {position} out of bounds for expression {e.text}"
  | .inRest field position cause =>
    s!"cannot set field {quotedField field} from list[{position}:]: {cause.message}"
  | .inField field position cause =>
    s!"cannot set field {quotedField field} from value[{position}] of list: {cause.message}"
  | .shape cause => cause.message
  | .noExpr type => s!"cannot assign a missing expression to {type.display}"
  | .custom message => message
  | .unfinished => "binding does not end"

def failure (e : BindError) : Failure :=
  ⟨e.kind, if e.kind.isOwn then some e.message else none⟩

def place (wrap : BindError → BindError) (e : BindError) : BindError :=
  if e.isPlaceable then wrap e else e

end BindError

/-- A custom binder gets the expression and the type for which it was found. -/
abbrev CustomBinder := Expr → Destination → Except BindError Native

/-- The custom binders by type; a type that equals a registered one finds its binder. -/
structure Registry where
  entries : List (Destination × CustomBinder) := []

namespace Registry

def get? (r : Registry) (type : Destination) : Option CustomBinder :=
  if type.isKey then (r.entries.find? fun entry => entry.1.same type).map (·.2) else none

def contains (r : Registry) (type : Destination) : Bool := (r.get? type).isSome

/-- Registers a binder in place of an earlier one for the same type; some types cannot be
registered. -/
def register (r : Registry) (type : Destination) (binder : CustomBinder) : Option Registry :=
  if type.isKey then some ⟨(type, binder) :: r.entries⟩ else none

end Registry

/-- Registries that are changed in place, each of them known by its number. -/
abbrev Registries := List Registry

namespace Registries

/-- Registers a binder in one of the registries. -/
def register (rs : Registries) (i : Nat) (type : Destination) (binder : CustomBinder) :
    Option Registries := do
  let r ← rs[i]?
  let changed ← r.register type binder
  return rs.set i changed

/-- Copies a registry; the copy gets the next number. -/
def copy (rs : Registries) (i : Nat) : Option Registries := rs[i]?.map fun r => rs ++ [r]

end Registries

def bindOpaque (e? : Option Expr) (type : Destination) : Except BindError Native :=
  match e? with
  | some e => .ok (.expr e)
  | none => .error (.noExpr type)

/-- Expressions are kept as they are, and so are optional ones. -/
def Registry.default : Registry :=
  ⟨[(.plain .expr, fun e t => bindOpaque (some e) t),
    (.optional (.plain .expr), fun e t => bindOpaque (some e) t)]⟩

namespace Destination

/-- The value of an expression, if it belongs to the type as it is: numbers of every width count
as plain ones, and booleans are no numbers. -/
def assign? (type : Destination) (e : Expr) : Option Native :=
  match type, e with
  | .any, e => some e.native
  | .plain .object, e => some e.native
  | .plain .bool, .atom _ (.bool b) => some (.bool b)
  | .plain .int, .atom _ (.int _ n) => some (.int n)
  | .plain .float, .atom _ (.single x) => some (.double (x.convert .double))
  | .plain .float, .atom _ (.double x) => some (.double x)
  | .plain .single, .atom _ (.single x) => some (.single x)
  | .plain .bytes, .atom _ (.bytes bs) => some (.bytes bs)
  | .plain .string, .atom _ (.string s) => some (.str s)
  | .plain .symbol, .atom _ (.symbol s) => some (.symbol s)
  | .plain .exprs, .list _ es => some (.exprs es)
  | _, _ => none

/-- The element type of a sequence type, and whether it is bound to a tuple. -/
def elements? : Destination → Option (Destination × Bool)
  | .sequence _ t => some (t, false)
  | .bareSequence _ => some (.any, false)
  | .tuples t => some (t, true)
  | _ => none

def isFixedTuple : Destination → Bool
  | .tuple _ | .bareTuple => true
  | _ => false

end Destination

structure Binder where
  registry : Registry := .default
  family : Family := []

namespace Binder

/-- Binds each element; an error is placed at its element. -/
def bindElements (bind : Expr → Except BindError Native) (type : Destination) (index : Nat) :
    List Expr → Except BindError (List Native)
  | [] => .ok []
  | e :: es =>
    match bind e with
    | .error cause => .error (cause.place (.inElement index type))
    | .ok v => (bindElements bind type (index + 1) es).map (v :: ·)

def bindSlot (bind : Expr → Destination → Except BindError Native) (e : Expr) (es : List Expr)
    (slot : Slot) : Except BindError Native :=
  if slot.isRest then
    (bind (.list none (es.drop slot.position)) slot.type).mapError
      (·.place (.inRest slot.field slot.position))
  else
    match es[slot.position]? with
    | none => .error (.outOfBounds slot.field slot.position e)
    | some x => (bind x slot.type).mapError (·.place (.inField slot.field slot.position))

theorem bindSlot_ok_iff {bind : Expr → Destination → Except BindError Native} {e : Expr}
    {es : List Expr} {slot : Slot} {v : Native} :
    bindSlot bind e es slot = .ok v ↔
      ∃ x, slot.component? es = some x ∧ bind x slot.type = .ok v := by
  unfold bindSlot Slot.component?
  by_cases h : slot.isRest
  · simp [h, mapError_ok_iff]
  · cases hx : es[slot.position]? <;> simp [h, mapError_ok_iff]

def bindSlots (bind : Expr → Destination → Except BindError Native) (e : Expr) (es : List Expr) :
    List Slot → Except BindError (List (String × Native))
  | [] => .ok []
  | slot :: slots => do
    let v ← bindSlot bind e es slot
    let vs ← bindSlots bind e es slots
    return (slot.field, v) :: vs

def checkLength (shape : Shape) (e : Expr) (length : Nat) : Except BindError Unit :=
  if length < shape.minLength then .error (.tooShort length shape.minLength e)
  else match shape.maxLength? with
    | some most => if most < length then .error (.tooLong length most e) else .ok ()
    | none => .ok ()

def bindRecord (bind : Expr → Destination → Except BindError Native) (shape : Shape) (e : Expr) :
    Except BindError Native :=
  match e.elems? with
  | none => .error (.notRecord shape.name e)
  | some es => do
    checkLength shape e es.length
    let fields ← bindSlots bind e es shape.slots
    return .record shape.name fields

def bindSequence (bind : Expr → Destination → Except BindError Native) (type elem : Destination)
    (isTuple : Bool) (e : Expr) : Except BindError Native :=
  match e.elems? with
  | none => .error (.notSequence type e)
  | some es => (bindElements (bind · elem) type 0 es).map (if isTuple then .tuple else .list)

/-- Binds an expression in at most `fuel` nested steps. -/
def bindWithin (b : Binder) : Nat → Expr → Destination → Except BindError Native
  | 0, _, _ => .error .unfinished
  | fuel + 1, e, type =>
    match b.registry.get? type with
    | some custom => custom e type
    | none =>
      match type.assign? e with
      | some v => .ok v
      | none =>
        match type.optionalTarget?, type, type.elements? with
        | some target, _, _ => bindWithin b fuel e target
        | none, .record name, _ =>
          match b.family.shape name with
          | .error cause => .error (.shape cause)
          | .ok shape => bindRecord (bindWithin b fuel) shape e
        | none, type, some (elem, isTuple) => bindSequence (bindWithin b fuel) type elem isTuple e
        | none, type, none =>
          if type.isFixedTuple then .error (.fixedTuple type) else .error (.unassignable type e)

/-- Enough steps for every binding that ends. A step keeps the expression only when it goes on to
another of the types at hand, so that no expression is kept for more steps than there are types
unless the binding goes in circles. -/
def enoughFuel (b : Binder) (e : Expr) (type : Destination) : Nat :=
  (e.size + 1) * (type.size + b.family.size + 2)

def bind (b : Binder) (e : Expr) (type : Destination) : Except BindError Native :=
  b.bindWithin (b.enoughFuel e type) e type

end Binder

end Formulary
