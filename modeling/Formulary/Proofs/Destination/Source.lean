import Formulary.Proofs.Destination.Step
import Formulary.Proofs.Expr.Basic

/-!
# Source contexts in bindings

Expressions that differ in their source contexts only are bound alike: to values in which the
expressions differ in their source contexts only, or with errors that read the same. A slot that
takes the rest of a list drops the source context of the list, and a custom binder is asked to
look at no source context either.
-/
namespace Formulary

namespace Native

mutual

/-- The value with the expressions in it made bare. -/
def bare : Native → Native
  | .expr e => .expr e.bare
  | .exprs es => .exprs (es.map Expr.bare)
  | .list vs => .list (bareAll vs)
  | .tuple vs => .tuple (bareAll vs)
  | .mapping fields => .mapping (bareFields fields)
  | .record name fields => .record name (bareFields fields)
  | v => v

def bareAll : List Native → List Native
  | [] => []
  | v :: vs => bare v :: bareAll vs

def bareFields : List (String × Native) → List (String × Native)
  | [] => []
  | (k, v) :: fs => (k, bare v) :: bareFields fs

end

theorem bareAll_eq (vs : List Native) : bareAll vs = vs.map bare := by
  induction vs with
  | nil => rfl
  | cons v vs ih => rw [bareAll, ih, List.map_cons]

end Native

/-! ## Values and errors that are alike -/

namespace BindError

/-- The errors read the same, and neither or both say that the binding did not end. -/
structure Alike (a b : BindError) : Prop where
  kind : a.kind = b.kind
  message : a.message = b.message
  unfinished : a = .unfinished ↔ b = .unfinished

variable {a b : BindError}

theorem Alike.refl (a : BindError) : a.Alike a := ⟨rfl, rfl, Iff.rfl⟩

theorem Alike.place {wrap : BindError → BindError} (h : a.Alike b)
    (hwrap : ∀ c d : BindError, c.message = d.message → (wrap c).Alike (wrap d)) :
    (a.place wrap).Alike (b.place wrap) := by
  have hplaceable : a.isPlaceable = b.isPlaceable := by rw [isPlaceable, h.kind, isPlaceable]
  unfold BindError.place
  rw [hplaceable]
  split_ifs
  · exact hwrap a b h.message
  · exact h

/-- Errors of the binder itself are alike if they are worded alike. -/
theorem Alike.of_message (ha : a.kind = .binding) (hb : b.kind = .binding)
    (h : a.message = b.message) : a.Alike b := by
  refine ⟨ha.trans hb.symm, h, ?_, ?_⟩
  · rintro rfl
    cases ha
  · rintro rfl
    cases hb

/-! An error that holds another error or an expression reads the same if these do. -/

theorem Alike.inElement (index : Nat) (type : Destination) (h : a.message = b.message) :
    (BindError.inElement index type a).Alike (.inElement index type b) :=
  .of_message rfl rfl
    (congrArg (fun text => s!"failed to bind to element [{index}] of {type.name}: {text}") h)

theorem Alike.inRest (field : String) (position : Nat) (h : a.message = b.message) :
    (BindError.inRest field position a).Alike (.inRest field position b) :=
  .of_message rfl rfl (congrArg
    (fun text => s!"cannot set field {quotedField field} from list[{position}:]: {text}") h)

theorem Alike.inField (field : String) (position : Nat) (h : a.message = b.message) :
    (BindError.inField field position a).Alike (.inField field position b) :=
  .of_message rfl rfl (congrArg
    (fun text => s!"cannot set field {quotedField field} from value[{position}] of list: {text}") h)

variable {e e' : Expr}

theorem Alike.notRecord (record : String) (h : e.text = e'.text) :
    (BindError.notRecord record e).Alike (.notRecord record e') :=
  .of_message rfl rfl (congrArg
    (fun text => s!"cannot bind expression into {record} unless it is a list, got {text}") h)

theorem Alike.notSequence (type : Destination) (h : e.text = e'.text) :
    (BindError.notSequence type e).Alike (.notSequence type e') :=
  .of_message rfl rfl (congrArg
    (fun text => s!"cannot bind {type.name} from a non-list expression, got {text}") h)

theorem Alike.tooShort (got least : Nat) (h : e.text = e'.text) :
    (BindError.tooShort got least e).Alike (.tooShort got least e') :=
  .of_message rfl rfl (congrArg
    (fun text => s!"cannot destructure expression: got length {got}, want >={least}: {text}") h)

theorem Alike.tooLong (got most : Nat) (h : e.text = e'.text) :
    (BindError.tooLong got most e).Alike (.tooLong got most e') :=
  .of_message rfl rfl (congrArg
    (fun text => s!"cannot destructure expression: got length {got}, want <={most}: {text}") h)

theorem Alike.outOfBounds (field : String) (position : Nat) (h : e.text = e'.text) :
    (BindError.outOfBounds field position e).Alike (.outOfBounds field position e') :=
  .of_message rfl rfl (congrArg (fun text =>
    s!"cannot set field {quotedField field}; index {position} out of bounds for expression {text}") h)

theorem Alike.unassignable (type : Destination) (h : e.text = e'.text)
    (hname : e.native.typeName = e'.native.typeName) :
    (BindError.unassignable type e).Alike (.unassignable type e') :=
  .of_message rfl rfl (congrArg₂ (fun text typeName =>
    s!"dst type {type.quotedName} cannot be bound by expression {text} (with value type '{typeName}')")
    h hname)

end BindError

/-- The outcomes of two bindings differ in source contexts only. -/
abbrev BoundAlike : Except BindError Native → Except BindError Native → Prop :=
  Agree BindError.Alike fun v w => v.bare = w.bare

/-- The custom binders bind expressions alike that differ in their source contexts only. -/
def Registry.IgnoresSources (r : Registry) : Prop :=
  ∀ type custom e e', r.get? type = some custom → e.bare = e'.bare →
    BoundAlike (custom e type) (custom e' type)

namespace Destination

theorem map_assign?_bare (type : Destination) {e e' : Expr} (h : e.bare = e'.bare) :
    (type.assign? e).map Native.bare = (type.assign? e').map Native.bare := by
  cases Expr.sameParts_of_bare h with
  | atom s s' a =>
    cases type with
    | plain c => cases c <;> cases a <;> rfl
    | _ => rfl
  | @list s s' es es' hes =>
    have hnative : (Native.exprs es).bare = (Native.exprs es').bare := by
      rw [Native.bare, Native.bare, hes]
    cases type with
    | plain c => cases c <;> simp [assign?, Expr.native, hnative]
    | any => simp [assign?, Expr.native, hnative]
    | _ => rfl

end Destination

namespace Binder

/-! ## The functions that a step calls -/

section Calls

variable {f g : Expr → Destination → Except BindError Native} {e e' : Expr} {es es' : List Expr}

theorem bindElements_bare {f g : Expr → Except BindError Native} (type : Destination)
    (hes : es.map Expr.bare = es'.map Expr.bare)
    (h : ∀ x y, x.bare = y.bare → BoundAlike (f x) (g y)) (index : Nat) :
    Agree BindError.Alike (fun vs ws => vs.map Native.bare = ws.map Native.bare)
      (bindElements f type index es) (bindElements g type index es') := by
  induction es generalizing es' index with
  | nil =>
    obtain rfl : es' = [] := List.map_eq_nil_iff.1 hes.symm
    exact .ok rfl
  | cons x es ih =>
    cases es' with
    | nil => cases hes
    | cons y es' =>
      rw [List.map_cons, List.map_cons, List.cons.injEq] at hes
      have hxy := h x y hes.1
      rw [bindElements, bindElements]
      cases hx : f x <;> cases hy : g y <;> rw [hx, hy] at hxy <;> cases hxy
      case error.error.error hcause =>
        exact .error (hcause.place fun c d => .inElement index type)
      case ok.ok.ok v w hvw =>
        refine (ih hes.2 (index + 1)).map ?_
        intro vs ws hvs
        rw [List.map_cons, List.map_cons, hvw, hvs]

theorem bindSlot_bare (he : e.bare = e'.bare) (hes : es.map Expr.bare = es'.map Expr.bare)
    (h : ∀ x y t, x.bare = y.bare → BoundAlike (f x t) (g y t)) (slot : Slot) :
    BoundAlike (bindSlot f e es slot) (bindSlot g e' es' slot) := by
  unfold bindSlot
  by_cases hrest : slot.isRest = true
  · rw [if_pos hrest, if_pos hrest]
    have hdrop : (Expr.list none (es.drop slot.position)).bare =
        (Expr.list none (es'.drop slot.position)).bare :=
      Expr.bare_list (by rw [List.map_drop, hes, List.map_drop]) none none
    apply (h _ _ slot.type hdrop).mapError
    intro a b hab
    exact hab.place fun c d => .inRest slot.field slot.position
  · rw [if_neg hrest, if_neg hrest]
    have hget : es[slot.position]?.map Expr.bare = es'[slot.position]?.map Expr.bare := by
      rw [← List.getElem?_map, hes, List.getElem?_map]
    cases hx : es[slot.position]? <;> cases hy : es'[slot.position]? <;> rw [hx, hy] at hget
    · exact .error (.outOfBounds slot.field slot.position (Expr.text_of_bare he))
    · cases hget
    · cases hget
    · apply (h _ _ slot.type (Option.some.inj hget)).mapError
      intro a b hab
      exact hab.place fun c d => .inField slot.field slot.position

theorem bindSlots_bare (he : e.bare = e'.bare) (hes : es.map Expr.bare = es'.map Expr.bare)
    (h : ∀ x y t, x.bare = y.bare → BoundAlike (f x t) (g y t)) (slots : List Slot) :
    Agree BindError.Alike (fun fs gs => Native.bareFields fs = Native.bareFields gs)
      (bindSlots f e es slots) (bindSlots g e' es' slots) := by
  induction slots with
  | nil => exact .ok rfl
  | cons slot slots ih =>
    rw [bindSlots, bindSlots]
    refine (bindSlot_bare he hes h slot).bind fun v w hvw => ih.bind fun vs ws hvs => .ok ?_
    rw [Native.bareFields, Native.bareFields, hvw, hvs]

theorem checkLength_bare (shape : Shape) (he : e.bare = e'.bare) (length : Nat) :
    Agree BindError.Alike (fun _ _ => True) (checkLength shape e length)
      (checkLength shape e' length) := by
  have htext := Expr.text_of_bare he
  unfold checkLength
  split_ifs
  · exact .error (.tooShort _ _ htext)
  · split
    · split_ifs
      · exact .error (.tooLong _ _ htext)
      · exact .ok trivial
    · exact .ok trivial

theorem bindRecord_bare (shape : Shape) (he : e.bare = e'.bare)
    (h : ∀ x y t, x.bare = y.bare → BoundAlike (f x t) (g y t)) :
    BoundAlike (bindRecord f shape e) (bindRecord g shape e') := by
  unfold bindRecord
  cases Expr.sameParts_of_bare he with
  | atom s s' a =>
    exact .error (.notRecord shape.name (Expr.text_of_bare he))
  | @list s s' es es' hes =>
    have hlength : es'.length = es.length := by
      simpa only [List.length_map] using congrArg List.length hes.symm
    simp only [Expr.elems?, hlength]
    refine (checkLength_bare shape he es.length).bind fun _ _ _ => ?_
    refine (bindSlots_bare he hes h shape.slots).bind fun vs ws hvs => .ok ?_
    rw [Native.bare, Native.bare, hvs]

theorem bindSequence_bare (type elem : Destination) (isTuple : Bool) (he : e.bare = e'.bare)
    (h : ∀ x y t, x.bare = y.bare → BoundAlike (f x t) (g y t)) :
    BoundAlike (bindSequence f type elem isTuple e) (bindSequence g type elem isTuple e') := by
  unfold bindSequence
  cases Expr.sameParts_of_bare he with
  | atom s s' a =>
    exact .error (.notSequence type (Expr.text_of_bare he))
  | list s s' hes =>
    refine (bindElements_bare type hes (fun x y => h x y elem) 0).map ?_
    intro vs ws hvs
    cases isTuple
    · simp [Native.bare, Native.bareAll_eq, hvs]
    · simp [Native.bare, Native.bareAll_eq, hvs]

end Calls

/-! ## Bindings -/

variable {b : Binder} {e e' : Expr}

/-- Source contexts take no part in a binding, whatever the number of nested steps. -/
theorem bindWithin_bare (hb : b.registry.IgnoresSources) (n : Nat) (type : Destination)
    (he : e.bare = e'.bare) : BoundAlike (b.bindWithin n e type) (b.bindWithin n e' type) := by
  induction n generalizing e e' type with
  | zero => exact .error (.refl _)
  | succ n ih =>
    have hassign := type.map_assign?_bare he
    have hname : e.native.typeName = e'.native.typeName := by
      cases Expr.sameParts_of_bare he <;> rfl
    unfold bindWithin
    cases hc : b.registry.get? type with
    | some custom => exact hb type custom e e' hc he
    | none =>
      dsimp only
      cases hv : type.assign? e <;> cases hw : type.assign? e' <;> rw [hv, hw] at hassign
      · dsimp only
        split
        · exact ih _ he
        · split
          · exact .error (.refl _)
          · exact bindRecord_bare _ he fun x y t => ih t
        · exact bindSequence_bare _ _ _ he fun x y t => ih t
        · split_ifs
          · exact .error (.refl _)
          · exact .error (.unassignable _ (Expr.text_of_bare he) hname)
      · cases hassign
      · cases hassign
      · exact .ok (Option.some.inj hassign)

theorem default_given {type t : Destination} {custom : CustomBinder}
    (h : Registry.default.get? type = some custom) : custom e t = .ok (.expr e) := by
  unfold Registry.get? Registry.default at h
  split_ifs at h
  obtain ⟨entry, hentry, rfl⟩ := Option.map_eq_some_iff.1 h
  have hmem := List.mem_of_find?_eq_some hentry
  simp only [List.mem_cons, List.not_mem_nil, or_false] at hmem
  rcases hmem with rfl | rfl <;> rfl

theorem default_ignoresSources : Registry.default.IgnoresSources := by
  intro type custom e e' hc he
  rw [default_given hc, default_given hc]
  exact .ok (by rw [Native.bare, Native.bare, he])

end Binder

end Formulary
