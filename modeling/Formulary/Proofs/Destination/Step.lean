import Formulary.Proofs.Destination.Basic
import Formulary.Proofs.Outcome
import Mathlib.Data.List.Forall2

/-!
# One step of a binding

A binding that succeeds does so by a custom binder, by the value of the expression, or by the
success of its parts: the target of an optional type, the slots of a record or the elements of a
sequence. What the parts are given to is left open, so that the same step serves every number of
nested steps.
-/
namespace Formulary

namespace Shape

variable {shape : Shape} {slot : Slot}

/-- The lengths of the lists that fit a shape. -/
def Fits (shape : Shape) (n : Nat) : Prop :=
  shape.minLength ≤ n ∧ ∀ most ∈ shape.maxLength?, n ≤ most

theorem le_foldl_needed (slots : List Slot) (n : Nat) :
    n ≤ slots.foldl (fun n slot => max n slot.needed) n := by
  induction slots generalizing n with
  | nil => exact Nat.le_refl n
  | cons slot slots ih => exact Nat.le_trans (Nat.le_max_left n _) (ih _)

theorem needed_le_foldl {slots : List Slot} (h : slot ∈ slots) (n : Nat) :
    slot.needed ≤ slots.foldl (fun n slot => max n slot.needed) n := by
  induction slots generalizing n with
  | nil => cases h
  | cons slot' slots ih =>
    rw [List.foldl_cons]
    rcases List.mem_cons.1 h with rfl | h
    · exact Nat.le_trans (Nat.le_max_right n _) (le_foldl_needed slots _)
    · exact ih h _

theorem Fits.needed_le {n : Nat} (h : shape.Fits n) (hslot : slot ∈ shape.slots) :
    slot.needed ≤ n :=
  Nat.le_trans (needed_le_foldl hslot 0) h.1

end Shape

namespace Binder

/-! ## The functions that a step calls -/

section Calls

variable {bind : Expr → Destination → Except BindError Native} {e : Expr} {es : List Expr}

theorem checkLength_ok_iff {shape : Shape} {length : Nat} :
    checkLength shape e length = .ok () ↔ shape.Fits length := by
  unfold checkLength Shape.Fits
  cases shape.maxLength? with
  | none => by_cases h : length < shape.minLength <;> simp [h]; omega
  | some most =>
    by_cases h : length < shape.minLength
    · simp only [h, if_true, reduceCtorEq, false_iff, not_and]
      omega
    · by_cases h' : most < length <;> simp [h, h']; omega

theorem bindElements_ok_iff {bind : Expr → Except BindError Native} {type : Destination}
    {index : Nat} {vs : List Native} :
    bindElements bind type index es = .ok vs ↔
      List.Forall₂ (fun x v => bind x = .ok v) es vs := by
  induction es generalizing index vs with
  | nil => simp [bindElements, eq_comm]
  | cons x es ih =>
    rw [bindElements, List.forall₂_cons_left_iff]
    cases hx : bind x with
    | error cause => simp
    | ok v =>
      simp only [Except.ok.injEq, ← @ih (index + 1)]
      cases bindElements bind type (index + 1) es with
      | error cause => simp [Except.map]
      | ok rest => simp [Except.map, eq_comm]

/-- The field that a slot gives. -/
def Filled (bound : Expr → Destination → Native → Prop) (es : List Expr) (slot : Slot)
    (field : String × Native) : Prop :=
  field.1 = slot.field ∧ ∃ x, slot.component? es = some x ∧ bound x slot.type field.2

theorem bindSlots_ok_iff {slots : List Slot} {fields : List (String × Native)} :
    bindSlots bind e es slots = .ok fields ↔
      List.Forall₂ (Filled (fun x t v => bind x t = .ok v) es) slots fields := by
  induction slots generalizing fields with
  | nil => simp [bindSlots, eq_comm]
  | cons slot slots ih =>
    rw [bindSlots, List.forall₂_cons_left_iff]
    simp only [Filled, ← bindSlot_ok_iff (e := e), ← ih]
    cases bindSlot bind e es slot with
    | error cause => simp [Bind.bind, Except.bind]
    | ok v =>
      cases bindSlots bind e es slots with
      | error cause => simp [Bind.bind, Except.bind]
      | ok rest => simp [Bind.bind, Except.bind, pure, Except.pure, eq_comm]

/-- The error is that of the first slot that fails. -/
theorem bindSlots_error_iff {slots : List Slot} {err : BindError} :
    bindSlots bind e es slots = .error err ↔
      ∃ (i : Nat) (slot : Slot), slots[i]? = some slot ∧ bindSlot bind e es slot = .error err ∧
        ∀ (j : Nat) (earlier : Slot), j < i → slots[j]? = some earlier →
          ∃ v, bindSlot bind e es earlier = .ok v := by
  induction slots with
  | nil => simp [bindSlots]
  | cons slot slots ih =>
    rw [bindSlots, bind_error_iff]
    constructor
    · rintro (h | ⟨v, hv, h⟩)
      · exact ⟨0, slot, rfl, h, fun j _ hj => absurd hj (Nat.not_lt_zero j)⟩
      · obtain h | ⟨vs, -, h⟩ := bind_error_iff.1 h
        · obtain ⟨i, failing, hfailing, h, hearlier⟩ := ih.1 h
          refine ⟨i + 1, failing, hfailing, h, ?_⟩
          rintro (- | j) earlier hj hslot
          · cases hslot
            exact ⟨v, hv⟩
          · exact hearlier j earlier (Nat.lt_of_succ_lt_succ hj) hslot
        · cases h
    · rintro ⟨- | i, failing, hfailing, h, hearlier⟩
      · cases hfailing
        exact .inl h
      · obtain ⟨v, hv⟩ := hearlier 0 slot (Nat.zero_lt_succ i) rfl
        refine .inr ⟨v, hv, bind_error_iff.2 (.inl (ih.2 ⟨i, failing, hfailing, h, ?_⟩))⟩
        exact fun j earlier hj hslot => hearlier (j + 1) earlier (Nat.succ_lt_succ hj) hslot

theorem bindRecord_ok_iff {shape : Shape} {v : Native} :
    bindRecord bind shape e = .ok v ↔ ∃ es fields, e.elems? = some es ∧ shape.Fits es.length ∧
      List.Forall₂ (Filled (fun x t v => bind x t = .ok v) es) shape.slots fields ∧
      v = .record shape.name fields := by
  unfold bindRecord
  cases e.elems? with
  | none => simp
  | some es =>
    simp only [Option.some.injEq, exists_and_left, exists_eq_left', ← bindSlots_ok_iff (e := e),
      ← checkLength_ok_iff (e := e)]
    cases checkLength shape e es.length with
    | error cause => simp [Bind.bind, Except.bind]
    | ok _ =>
      cases bindSlots bind e es shape.slots with
      | error cause => simp [Bind.bind, Except.bind]
      | ok fields => simp [Bind.bind, Except.bind, pure, Except.pure, eq_comm]

theorem bindSequence_ok_iff {type elem : Destination} {isTuple : Bool} {v : Native} :
    bindSequence bind type elem isTuple e = .ok v ↔ ∃ es vs, e.elems? = some es ∧
      List.Forall₂ (fun x v => bind x elem = .ok v) es vs ∧
      v = if isTuple then .tuple vs else .list vs := by
  unfold bindSequence
  cases e.elems? with
  | none => simp
  | some es =>
    simp only [Option.some.injEq, exists_and_left, exists_eq_left',
      ← @bindElements_ok_iff _ _ type 0]
    cases bindElements (bind · elem) type 0 es with
    | error cause => simp [Except.map]
    | ok vs => cases isTuple <;> simp [Except.map, eq_comm]

end Calls

/-! ## The step -/

section Equations

variable {b : Binder} {e : Expr} {type : Destination}

theorem bindWithin_custom {custom : CustomBinder} (h : b.registry.get? type = some custom)
    (n : Nat) : b.bindWithin (n + 1) e type = custom e type := by
  simp only [bindWithin, h]

theorem bindWithin_target {target : Destination} (hfree : b.registry.get? type = none)
    (h : type.optionalTarget? = some target) (n : Nat) :
    b.bindWithin (n + 1) e type = b.bindWithin n e target := by
  conv_lhs => unfold bindWithin
  obtain ⟨style, rfl | rfl⟩ := Destination.eq_union_of_optionalTarget? h
  all_goals simp only [hfree, h, Destination.assign?]

theorem bindWithin_record {name : String} {shape : Shape}
    (hfree : b.registry.get? (.record name) = none) (h : b.family.shape name = .ok shape)
    (n : Nat) : b.bindWithin (n + 1) e (.record name) = bindRecord (b.bindWithin n) shape e := by
  simp only [bindWithin, hfree, h, Destination.assign?, Destination.optionalTarget?]

theorem bindWithin_elements {elem : Destination} {isTuple : Bool}
    (hfree : b.registry.get? type = none) (h : type.elements? = some (elem, isTuple)) (n : Nat) :
    b.bindWithin (n + 1) e type = bindSequence (b.bindWithin n) type elem isTuple e := by
  conv_lhs => unfold bindWithin
  cases type <;> cases h
  all_goals
    simp only [hfree, Destination.assign?, Destination.optionalTarget?, Destination.elements?]

end Equations

/-- The ways in which a binding succeeds, given what the parts are bound to. -/
inductive Step (b : Binder) (bound : Expr → Destination → Native → Prop) :
    Expr → Destination → Native → Prop where
  | custom {e type custom v} (found : b.registry.get? type = some custom)
      (given : custom e type = .ok v) : Step b bound e type v
  | value {e type v} (free : b.registry.get? type = none) (assigned : type.assign? e = some v) :
      Step b bound e type v
  | target {e type target v} (free : b.registry.get? type = none)
      (isOptional : type.optionalTarget? = some target) (rest : bound e target v) :
      Step b bound e type v
  | record {source es name shape fields} (free : b.registry.get? (.record name) = none)
      (compiled : b.family.shape name = .ok shape) (fits : shape.Fits es.length)
      (filled : List.Forall₂ (Filled bound es) shape.slots fields) :
      Step b bound (.list source es) (.record name) (.record shape.name fields)
  | elements {source es type elem isTuple vs} (free : b.registry.get? type = none)
      (isSequence : type.elements? = some (elem, isTuple))
      (items : List.Forall₂ (fun x v => bound x elem v) es vs) :
      Step b bound (.list source es) type (if isTuple then .tuple vs else .list vs)

variable {b : Binder} {n m : Nat} {e : Expr} {type : Destination} {v : Native}
  {bound bound' : Expr → Destination → Native → Prop}

theorem bindWithin_succ_ok_iff :
    b.bindWithin (n + 1) e type = .ok v ↔
      Step b (fun e type v => b.bindWithin n e type = .ok v) e type v := by
  constructor
  · intro h
    unfold bindWithin at h
    split at h
    next custom hc => exact .custom hc h
    next hfree =>
      split at h
      next w hw =>
        cases h
        exact .value hfree hw
      next =>
        split at h
        next target _ _ _ ht => exact .target hfree ht h
        next name _ _ _ =>
          split at h
          · cases h
          next shape hshape =>
            obtain ⟨es, fields, hes, hfits, hfields, rfl⟩ := bindRecord_ok_iff.1 h
            cases e with
            | atom => cases hes
            | list source =>
              cases hes
              exact .record hfree hshape hfits hfields
        next elem isTuple _ _ _ helem =>
          obtain ⟨es, vs, hes, hvs, rfl⟩ := bindSequence_ok_iff.1 h
          cases e with
          | atom => cases hes
          | list source =>
            cases hes
            exact .elements hfree helem hvs
        next => split at h <;> cases h
  · intro h
    cases h with
    | custom hc h => rwa [bindWithin_custom hc]
    | value hfree h => simp only [bindWithin, hfree, h]
    | target hfree h hrest => rwa [bindWithin_target hfree h]
    | record hfree hshape hfits hfields =>
      rw [bindWithin_record hfree hshape]
      exact bindRecord_ok_iff.2 ⟨_, _, rfl, hfits, hfields, rfl⟩
    | elements hfree helem hitems =>
      rw [bindWithin_elements hfree helem]
      exact bindSequence_ok_iff.2 ⟨_, _, rfl, hitems, rfl⟩

/-! ## Parts -/

/-- The expressions and types that a binding goes on to. -/
inductive Part (family : Family) : Expr → Destination → Expr → Destination → Prop where
  | target {e type target} (isOptional : type.optionalTarget? = some target) :
      Part family e type e target
  | slot {source es name shape slot x} (compiled : family.shape name = .ok shape)
      (fits : shape.Fits es.length) (mem : slot ∈ shape.slots)
      (taken : slot.component? es = some x) :
      Part family (.list source es) (.record name) x slot.type
  | element {source es type elem isTuple x} (isSequence : type.elements? = some (elem, isTuple))
      (mem : x ∈ es) : Part family (.list source es) type x elem

end Binder

/-- The types that are given the same expression in turn: the target of an optional type, and the
type of the `&rest` field of a record if the field takes the list from its first element on. -/
inductive Family.Passes (family : Family) : Destination → Destination → Prop where
  | target {type target} (isOptional : type.optionalTarget? = some target) :
      Passes family type target
  | rest {name shape slot} (compiled : family.shape name = .ok shape) (mem : slot ∈ shape.slots)
      (isRest : slot.isRest = true) (isFirst : slot.position = 0) :
      Passes family (.record name) slot.type

namespace Binder

variable {b : Binder} {n m : Nat} {e : Expr} {type : Destination} {v : Native}
  {bound bound' : Expr → Destination → Native → Prop}

theorem Step.mono (himp : ∀ x t v, bound x t v → bound' x t v) (h : Step b bound e type v) :
    Step b bound' e type v := by
  cases h with
  | custom hc h => exact .custom hc h
  | value hfree h => exact .value hfree h
  | target hfree ht hrest => exact .target hfree ht (himp _ _ _ hrest)
  | record hfree hshape hfits hfilled =>
    refine .record hfree hshape hfits (hfilled.imp ?_)
    rintro slot field ⟨hname, x, hx, hv⟩
    exact ⟨hname, x, hx, himp _ _ _ hv⟩
  | elements hfree hseq hitems =>
    exact .elements hfree hseq (hitems.imp fun x v hv => himp _ _ _ hv)

/-- More steps keep a success. -/
theorem bindWithin_mono (hle : n ≤ m) (h : b.bindWithin n e type = .ok v) :
    b.bindWithin m e type = .ok v := by
  induction n generalizing m e type v with
  | zero => cases h
  | succ n ih =>
    obtain ⟨m, rfl⟩ : ∃ m', m = m' + 1 := ⟨m - 1, by omega⟩
    rw [bindWithin_succ_ok_iff] at h ⊢
    exact h.mono fun x t v hv => ih (by omega) hv

end Binder

end Formulary
