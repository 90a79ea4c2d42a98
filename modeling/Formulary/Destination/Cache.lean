import Formulary.Destination.Bind

/-!
# Binding with a cache of shapes

A long-lived binder compiles each record once. The cache holds the shapes that were compiled, and
the log says in which order; a declaration that does not compile is tried again at every use.
-/
namespace Formulary

structure ShapeCache where
  shapes : List (String × Shape) := []
  /-- The shapes in the order in which they were compiled. -/
  log : List Shape := []

namespace ShapeCache

/-- The shape of a record, from the cache or compiled now. -/
def shape (family : Family) (name : String) (cache : ShapeCache) :
    Except ShapeError Shape × ShapeCache :=
  match cache.shapes.lookup name with
  | some s => (.ok s, cache)
  | none =>
    match family.shape name with
    | .ok s => (.ok s, ⟨(name, s) :: cache.shapes, cache.log ++ [s]⟩)
    | .error e => (.error e, cache)

end ShapeCache

namespace Binder

/-- A binding that consults and fills the cache, whether it succeeds or not. -/
abbrev Cached (α : Type) := ShapeCache → Except BindError α × ShapeCache

def cachedElements (bind : Expr → Cached Native) (type : Destination) (index : Nat) :
    List Expr → Cached (List Native)
  | [], cache => (.ok [], cache)
  | e :: es, cache =>
    match bind e cache with
    | (.error cause, cache) => (.error (cause.place (.inElement index type)), cache)
    | (.ok v, cache) =>
      let (vs, cache) := cachedElements bind type (index + 1) es cache
      (vs.map (v :: ·), cache)

def cachedSlot (bind : Expr → Destination → Cached Native) (e : Expr) (es : List Expr)
    (slot : Slot) : Cached Native := fun cache =>
  if slot.isRest then
    let (v, cache) := bind (.list none (es.drop slot.position)) slot.type cache
    (v.mapError (·.place (.inRest slot.field slot.position)), cache)
  else
    match es[slot.position]? with
    | none => (.error (.outOfBounds slot.field slot.position e), cache)
    | some x =>
      let (v, cache) := bind x slot.type cache
      (v.mapError (·.place (.inField slot.field slot.position)), cache)

def cachedSlots (bind : Expr → Destination → Cached Native) (e : Expr) (es : List Expr) :
    List Slot → Cached (List (String × Native))
  | [], cache => (.ok [], cache)
  | slot :: slots, cache =>
    match cachedSlot bind e es slot cache with
    | (.error cause, cache) => (.error cause, cache)
    | (.ok v, cache) =>
      let (vs, cache) := cachedSlots bind e es slots cache
      (vs.map ((slot.field, v) :: ·), cache)

def cachedRecord (bind : Expr → Destination → Cached Native) (shape : Shape) (e : Expr) :
    Cached Native := fun cache =>
  match e.elems? with
  | none => (.error (.notRecord shape.name e), cache)
  | some es =>
    match checkLength shape e es.length with
    | .error cause => (.error cause, cache)
    | .ok () =>
      let (fields, cache) := cachedSlots bind e es shape.slots cache
      (fields.map (.record shape.name), cache)

def cachedSequence (bind : Expr → Destination → Cached Native) (type elem : Destination)
    (isTuple : Bool) (e : Expr) : Cached Native := fun cache =>
  match e.elems? with
  | none => (.error (.notSequence type e), cache)
  | some es =>
    let (vs, cache) := cachedElements (bind · elem) type 0 es cache
    (vs.map (if isTuple then .tuple else .list), cache)

/-- Binds an expression in at most `fuel` nested steps, each record being compiled when the first
expression reaches it. -/
def bindCachedWithin (b : Binder) : Nat → Expr → Destination → Cached Native
  | 0, _, _, cache => (.error .unfinished, cache)
  | fuel + 1, e, type, cache =>
    match b.registry.get? type with
    | some custom => (custom e type, cache)
    | none =>
      match type.assign? e with
      | some v => (.ok v, cache)
      | none =>
        match type.optionalTarget?, type, type.elements? with
        | some target, _, _ => bindCachedWithin b fuel e target cache
        | none, .record name, _ =>
          match cache.shape b.family name with
          | (.error cause, cache) => (.error (.shape cause), cache)
          | (.ok shape, cache) => cachedRecord (bindCachedWithin b fuel) shape e cache
        | none, type, some (elem, isTuple) =>
          cachedSequence (bindCachedWithin b fuel) type elem isTuple e cache
        | none, type, none =>
          (.error (if type.isFixedTuple then .fixedTuple type else .unassignable type e), cache)

def bindCached (b : Binder) (e : Expr) (type : Destination) : Cached Native :=
  b.bindCachedWithin (b.enoughFuel e type) e type

end Binder

end Formulary
