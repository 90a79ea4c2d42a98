import Formulary.Proofs.Destination.Conformance
import Mathlib.Logic.Relation

/-!
# Where custom binders act

A binding looks a type up in the registry before it does anything else with it. The types that it
goes on to from a given one are known: targets of optional types, element types of sequences and
the types of the slots of records. A new binder therefore changes nothing if its type is none of
them, and otherwise it binds every component that gets to its type through types that have no
binder.
-/
namespace Formulary

namespace Destination

/-! ## Equal types are registered alike -/

theorem areKeys_iff {ts : List Destination} : areKeys ts = true ↔ ∀ t ∈ ts, t.isKey = true := by
  induction ts with
  | nil => simp [areKeys]
  | cons t ts ih => rw [areKeys, Bool.and_eq_true, ih, List.forall_mem_cons]

mutual

theorem isKey_of_same : (t u : Destination) → same t u = true → t.isKey = true → u.isKey = true
  | .plain _, u, h, _ | .any, u, h, _ | .record _, u, h, _ | .bareSequence _, u, h, _
  | .bareTuple, u, h, _ => by
    cases u <;> simp [same, isKey] at h ⊢
  | .annotated, _, _, hk => by cases hk
  | .sequence _ t, u, h, hk => by
    cases u <;> simp only [same, Bool.false_eq_true, Bool.and_eq_true] at h
    rw [isKey] at hk ⊢
    exact isKey_of_same t _ h.2 hk
  | .tuples t, u, h, hk => by
    cases u <;> simp only [same, Bool.false_eq_true] at h
    rw [isKey] at hk ⊢
    exact isKey_of_same t _ h hk
  | .tuple ts, u, h, hk => by
    cases u <;> simp only [same, Bool.false_eq_true] at h
    exact areKeys_of_sameAll ts _ h hk
  | .union _ ts, u, h, hk => by
    cases u <;> simp only [same, Bool.false_eq_true, Bool.and_eq_true, List.all_eq_true] at h
    exact areKeys_iff.2 fun u hu => isKey_of_covers ts u (h.2 u hu) hk
  | .mapping k v, u, h, hk => by
    cases u <;> simp only [same, Bool.false_eq_true, Bool.and_eq_true] at h
    rw [isKey, Bool.and_eq_true] at hk ⊢
    exact ⟨isKey_of_same k _ h.1 hk.1, isKey_of_same v _ h.2 hk.2⟩

theorem areKeys_of_sameAll : (ts us : List Destination) → sameAll ts us = true →
    areKeys ts = true → areKeys us = true
  | [], us, h, _ => by
    cases us with
    | nil => rfl
    | cons u us => simp [sameAll] at h
  | t :: ts, us, h, hk => by
    cases us with
    | nil => rfl
    | cons u us =>
      simp only [sameAll, areKeys, Bool.and_eq_true] at h hk ⊢
      exact ⟨isKey_of_same t u h.1 hk.1, areKeys_of_sameAll ts us h.2 hk.2⟩

theorem isKey_of_covers : (ts : List Destination) → (u : Destination) → covers ts u = true →
    areKeys ts = true → u.isKey = true
  | [], _, h, _ => by simp [covers] at h
  | t :: ts, u, h, hk => by
    simp only [covers, areKeys, Bool.or_eq_true, Bool.and_eq_true] at h hk
    rcases h with h | h
    · exact isKey_of_same t u h hk.1
    · exact isKey_of_covers ts u h hk.2

end

end Destination

namespace Registry

variable {r r' : Registry} {u t : Destination} {c : CustomBinder}

/-- The new binder is found for every type that equals its own, and all else is found as before. -/
theorem get?_register (h : r.register u c = some r') (t : Destination) :
    r'.get? t = if u.same t then some c else r.get? t := by
  unfold register at h
  split_ifs at h with hu
  cases h
  by_cases hs : u.same t = true
  · have ht := Destination.isKey_of_same u t hs hu
    simp [get?, hs, ht]
  · simp [get?, List.find?_cons_of_neg, hs]

end Registry

/-- A registry that was copied and then changed: the copy, which has the next number, and all other
registries are as they were. -/
theorem Registries.register_copy {rs : Registries} {i : Nat} {r r' : Registry} {u : Destination}
    {c : CustomBinder} (hr : rs[i]? = some r) (h : r.register u c = some r') :
    ∃ copied changed, rs.copy i = some copied ∧ copied.register i u c = some changed ∧
      changed[i]? = some r' ∧ changed[rs.length]? = some r ∧
      ∀ j, j ≠ i → changed[j]? = copied[j]? := by
  have hlt : i < rs.length := (List.getElem?_eq_some_iff.1 hr).1
  have hsame : (rs ++ [r])[i]? = some r := by rw [List.getElem?_append_left hlt, hr]
  refine ⟨rs ++ [r], (rs ++ [r]).set i r', ?_, ?_, ?_, ?_, ?_⟩
  · rw [copy, hr, Option.map_some]
  · simp [register, hsame, h]
  · rw [List.getElem?_set_self (by rw [List.length_append]; omega)]
  · rw [List.getElem?_set_ne hlt.ne, List.getElem?_concat_length]
  · intro j hj
    rw [List.getElem?_set_ne hj.symm]

/-! ## What is not reached -/

/-- A step from a type to those that a binding can go on to: the target of an optional type, the
element type of a sequence, which is any value if none is given, and the types of the slots of a
record. -/
inductive Family.Leads (family : Family) : Destination → Destination → Prop where
  | inner {t u} (h : t.Inner u) : Leads family t u
  | slot {name shape slot} (compiled : family.shape name = .ok shape) (mem : slot ∈ shape.slots) :
      Leads family (.record name) slot.type

/-- The type occurs in the other one, in one spelling or another. -/
def Family.Occurs (family : Family) (u type : Destination) : Prop :=
  ∃ t, Relation.ReflTransGen family.Leads type t ∧ u.same t = true

namespace Binder

theorem Part.leads {family : Family} {e x : Expr} {type t : Destination}
    (h : Part family e type x t) : family.Leads type t := by
  cases h with
  | target ht => exact .inner (.inl ht)
  | slot hshape _ hslot _ => exact .slot hshape hslot
  | element hseq _ => exact .inner (.inr ⟨_, hseq⟩)

theorem eq_of_approximates {α : Type} {x y : Except BindError α} (h : Approximates x y)
    (h' : Approximates y x) : x = y := by
  rcases h with rfl | rfl
  · exact h'.elim Eq.symm Eq.symm
  · rfl

/-- Binders that find the same for all types that a binding can get to bind alike. -/
theorem bindWithin_congr {b b' : Binder} (hfamily : b'.family = b.family) {type : Destination}
    (h : ∀ t, Relation.ReflTransGen b.family.Leads type t →
      b'.registry.get? t = b.registry.get? t) (n : Nat) (e : Expr) :
    b'.bindWithin n e type = b.bindWithin n e type := by
  induction n generalizing e type with
  | zero => rfl
  | succ n ih =>
    have hparts : ∀ x t, Part b.family e type x t →
        b'.bindWithin n x t = b.bindWithin n x t := by
      intro x t hpart
      exact ih (fun u hu => h u (hu.head hpart.leads)) x
    have hfound := h type .refl
    refine eq_of_approximates ?_ ?_
    · refine bindWithin_succ_approx hfamily.symm hfound.symm fun x t hpart => ?_
      exact .inr (hparts x t (hfamily ▸ hpart))
    · exact bindWithin_succ_approx hfamily hfound fun x t hpart => .inr (hparts x t hpart).symm

theorem bind_of_not_occurs {family : Family} {r r' : Registry} {u type : Destination}
    {c : CustomBinder} (h : r.register u c = some r') (hoccurs : ¬ family.Occurs u type)
    (e : Expr) : bind ⟨r', family⟩ e type = bind ⟨r, family⟩ e type := by
  have hfound : ∀ t, Relation.ReflTransGen family.Leads type t → r'.get? t = r.get? t := by
    intro t ht
    have hne : ¬ u.same t = true := fun hs => hoccurs ⟨t, ht, hs⟩
    rw [Registry.get?_register h, if_neg hne]
  have hwithin (n : Nat) : bindWithin ⟨r', family⟩ n e type = bindWithin ⟨r, family⟩ n e type := by
    apply bindWithin_congr
    · rfl
    · exact hfound
  exact hwithin _

/-! ## What is reached -/

/-- The binding of an expression to a type gets to a component of it and binds that to another
type. No type on the way has a custom binder. The path counts the slots of records and the elements
of sequences that lead to the component. -/
inductive Component (b : Binder) : Expr → Destination → List Nat → Expr → Destination → Prop where
  | here {e type} : Component b e type [] e type
  | target {e type target path x t} (free : b.registry.get? type = none)
      (isOptional : type.optionalTarget? = some target) (rest : Component b e target path x t) :
      Component b e type path x t
  | slot {source es name shape i slot y path x t} (free : b.registry.get? (.record name) = none)
      (compiled : b.family.shape name = .ok shape) (mem : shape.slots[i]? = some slot)
      (taken : slot.component? es = some y) (rest : Component b y slot.type path x t) :
      Component b (.list source es) (.record name) (i :: path) x t
  | element {source es type elem isTuple i y path x t} (free : b.registry.get? type = none)
      (isSequence : type.elements? = some (elem, isTuple)) (mem : es[i]? = some y)
      (rest : Component b y elem path x t) : Component b (.list source es) type (i :: path) x t

end Binder

/-- The value at the end of a path: a field of a record or an item of a sequence at every step. -/
def Native.at? : Native → List Nat → Option Native
  | v, [] => some v
  | .record _ fields, i :: path => fields[i]?.bind fun field => at? field.2 path
  | .list items, i :: path => items[i]?.bind fun item => at? item path
  | .tuple items, i :: path => items[i]?.bind fun item => at? item path
  | _, _ => none

namespace Binder

/-- A binding that succeeds has bound every component, and its value stands in the place. -/
theorem Component.exists_at? {b : Binder} {e x : Expr} {type t : Destination} {path : List Nat}
    {n : Nat} {v : Native} (h : Component b e type path x t) (hv : b.bindWithin n e type = .ok v) :
    ∃ m w, b.bindWithin m x t = .ok w ∧ v.at? path = some w := by
  induction h generalizing n v with
  | here => exact ⟨n, v, hv, by rw [Native.at?]⟩
  | target hfree htarget _ ih =>
    cases n with
    | zero => cases hv
    | succ n =>
      rw [bindWithin_target hfree htarget] at hv
      exact ih hv
  | slot hfree hshape hslot hy _ ih =>
    cases n with
    | zero => cases hv
    | succ n =>
      rw [bindWithin_record hfree hshape] at hv
      obtain ⟨es, fields, hes, -, hfields, rfl⟩ := bindRecord_ok_iff.1 hv
      cases hes
      obtain ⟨field, hfield, -, y', hy', hbound⟩ := exists_getElem?_of_forall₂ hfields hslot
      cases hy.symm.trans hy'
      obtain ⟨m, w, hw, hat⟩ := ih hbound
      exact ⟨m, w, hw, by rw [Native.at?, hfield, Option.bind_some, hat]⟩
  | @element _ _ _ _ isTuple _ _ _ _ _ hfree hseq hy _ ih =>
    cases n with
    | zero => cases hv
    | succ n =>
      rw [bindWithin_elements hfree hseq] at hv
      obtain ⟨es, vs, hes, hvs, rfl⟩ := bindSequence_ok_iff.1 hv
      cases hes
      obtain ⟨item, hitem, hbound⟩ := exists_getElem?_of_forall₂ hvs hy
      obtain ⟨m, w, hw, hat⟩ := ih hbound
      refine ⟨m, w, hw, ?_⟩
      cases isTuple <;> simp [Native.at?, hitem, hat]

theorem enoughFuel_pos (b : Binder) (e : Expr) (type : Destination) : 0 < b.enoughFuel e type :=
  Nat.mul_pos (Nat.succ_pos _) (Nat.succ_pos _)

theorem bind_custom {b : Binder} {type : Destination} {c : CustomBinder}
    (h : b.registry.get? type = some c) (e : Expr) : b.bind e type = c e type := by
  rw [bind, ← Nat.sub_one_add_one (b.enoughFuel_pos e type).ne', bindWithin_custom h]

/-- A binding that succeeds has what the custom binder gives in the place of every component that
gets to its type. -/
theorem Component.custom {b : Binder} {e x : Expr} {type t : Destination} {path : List Nat}
    {c : CustomBinder} {v : Native} (h : Component b e type path x t)
    (hc : b.registry.get? t = some c) (hv : b.bind e type = .ok v) :
    ∃ w, c x t = .ok w ∧ v.at? path = some w := by
  obtain ⟨m, w, hw, hat⟩ := h.exists_at? hv
  cases m with
  | zero => cases hw
  | succ m =>
    rw [bindWithin_custom hc] at hw
    exact ⟨w, hw, hat⟩

/-- A binder that is registered does not act on types in which its type does not occur. Every
component that gets to its type, through types without a binder, is bound to what the binder gives
for it. A copy that was made before does not have the binder, and neither has any other registry. -/
theorem register_acts (family : Family) (rs : Registries) (i : Nat) (r : Registry)
    (u : Destination) (c : CustomBinder) (hr : rs[i]? = some r) (hu : u.isKey = true) :
    ∃ copied changed r', rs.copy i = some copied ∧ copied.register i u c = some changed ∧
      changed[i]? = some r' ∧ changed[rs.length]? = some r ∧
      (∀ j, j ≠ i → changed[j]? = copied[j]?) ∧
      (∀ e type, ¬ family.Occurs u type → bind ⟨r', family⟩ e type = bind ⟨r, family⟩ e type) ∧
      ∀ e type path x t, Component ⟨r', family⟩ e type path x t → u.same t = true →
        bind ⟨r', family⟩ x t = c x t ∧
          ∀ v, bind ⟨r', family⟩ e type = .ok v → ∃ w, c x t = .ok w ∧ v.at? path = some w := by
  obtain ⟨r', hregister⟩ : ∃ r', r.register u c = some r' := ⟨_, if_pos hu⟩
  obtain ⟨copied, changed, hcopied, hchanged, hr', hcopy, hothers⟩ :=
    Registries.register_copy hr hregister
  refine ⟨copied, changed, r', hcopied, hchanged, hr', hcopy, hothers, ?_, ?_⟩
  · intro e type hoccurs
    exact bind_of_not_occurs hregister hoccurs e
  · intro e type path x t hcomponent hs
    have hc : r'.get? t = some c := by rw [Registry.get?_register hregister, if_pos hs]
    exact ⟨bind_custom hc x, fun v hv => hcomponent.custom hc hv⟩

/-- The type is registered in another spelling than that of the record, whose arguments are then
kept as they are; symbols are bound as before. -/
theorem register_acts_calls :
    let r : Registry := ⟨[]⟩
    let u : Destination := .union .named [.plain .none, .record "Call"]
    let c : CustomBinder := fun e _ => .ok (.expr e)
    let x : Expr := .list none [.atom none (.symbol ⟨"g", ""⟩), .atom none (.int .int64 1)]
    let e : Expr := .list none [.atom none (.symbol ⟨"f", ""⟩), x]
    u.isKey = true ∧ ∃ copied changed r', Registries.copy [r] 0 = some copied ∧
      copied.register 0 u c = some changed ∧ changed[0]? = some r' ∧ changed[1]? = some r ∧
      (∀ e, bind ⟨r', calls⟩ e (.plain .symbol) = bind ⟨r, calls⟩ e (.plain .symbol)) ∧
      ∃ v, bind ⟨r', calls⟩ e (.record "Call") = .ok v ∧ v.at? [1, 0] = some (.expr x) := by
  intro r u c x e
  have hu : u.isKey = true := by decide
  obtain ⟨copied, changed, r', hcopied, hchanged, hr', hcopy, -, hother, hacts⟩ :=
    register_acts calls [r] 0 r u c rfl hu
  refine ⟨hu, copied, changed, r', hcopied, hchanged, hr', hcopy, ?_, ?_⟩
  · intro e
    apply hother
    rintro ⟨t, hreach, hs⟩
    rcases hreach.cases_head with rfl | ⟨t', hleads, -⟩
    · simp [u, Destination.same] at hs
    · cases hleads with
      | inner h => rcases h with h | ⟨_, h⟩ <;> cases h
  · have hregister : r.register u c = some r' := by
      cases hcopied
      cases hchanged
      cases hr'
      rfl
    have hfree (t : Destination) (ht : u.same t = false) : r'.get? t = none := by
      rw [Registry.get?_register hregister, ht]
      simp [Registry.get?, r]
    let arg : Destination := .union .piped [.record "Call", .plain .none]
    have hsame : u.same arg = true := by
      simp [u, arg, Destination.same, Destination.within, Destination.covers]
    have harg : r'.get? arg = some c := by rw [Registry.get?_register hregister, if_pos hsame]
    have hrecord : r'.get? (.record "Call") = none := hfree _ (by simp [u, Destination.same])
    have hargs : r'.get? argType = none := hfree _ (by simp [u, argType, Destination.same])
    have hsymbol : r'.get? (.plain .symbol) = none := hfree _ (by simp [u, Destination.same])
    have hcomponent : Component ⟨r', calls⟩ e (.record "Call") [1, 0] x arg :=
      .slot hrecord shape_calls rfl rfl (.element hargs rfl rfl .here)
    have hv : bindWithin ⟨r', calls⟩ 3 e (.record "Call") =
        .ok (.record "Call" [("head", .symbol ⟨"f", ""⟩), ("args", .list [.expr x])]) := by
      have hhead : bindWithin ⟨r', calls⟩ 2 (.atom none (.symbol ⟨"f", ""⟩)) (.plain .symbol) =
          .ok (.symbol ⟨"f", ""⟩) := bindWithin_succ_ok_iff.2 (.value hsymbol rfl)
      have hitem : bindWithin ⟨r', calls⟩ 1 x arg = .ok (.expr x) := by
        rw [bindWithin_custom harg]
      have hitems : bindWithin ⟨r', calls⟩ 2 (.list none [x]) argType = .ok (.list [.expr x]) := by
        rw [bindWithin_elements hargs rfl]
        exact bindSequence_ok_iff.2 ⟨_, _, rfl, .cons hitem .nil, rfl⟩
      rw [bindWithin_record hrecord shape_calls]
      refine bindRecord_ok_iff.2 ⟨_, _, rfl, ?_, ?_, rfl⟩
      · exact ⟨by decide, fun most hmost => by cases hmost⟩
      · exact .cons ⟨rfl, _, rfl, hhead⟩ (.cons ⟨rfl, _, rfl, hitems⟩ .nil)
    have hfuel : 3 ≤ enoughFuel ⟨r', calls⟩ e (.record "Call") := Nat.le_of_ble_eq_true rfl
    have hbind : bind ⟨r', calls⟩ e (.record "Call") = _ := bindWithin_mono hfuel hv
    obtain ⟨-, hplaced⟩ := hacts e _ _ x _ hcomponent hsame
    obtain ⟨w, hw, hat⟩ := hplaced _ hbind
    cases hw
    exact ⟨_, hbind, hat⟩

/-- Nothing is written inside a sequence type without an argument, and yet a binder for any value
acts on its elements. -/
theorem register_any_acts_on_bareSequence :
    let type : Destination := .bareSequence .genericList
    let x : Expr := .atom none (.int .int64 1)
    let c : CustomBinder := fun e _ => .ok (.str e.text)
    Destination.same .any type = false ∧ type.optionalTarget? = none ∧
      (∀ style elem, type ≠ .sequence style elem) ∧ (∀ elem, type ≠ .tuples elem) ∧
      (∀ name, type ≠ .record name) ∧
      ∃ r', Registry.default.register .any c = some r' ∧
        bind ⟨.default, []⟩ (.list none [x]) type = .ok (.list [.int 1]) ∧
        bind ⟨r', []⟩ (.list none [x]) type = .ok (.list [.str "1"]) := by
  intro type x c
  have hfree (t : Destination) (ht : t = type ∨ t = .any) : Registry.default.get? t = none := by
    rcases ht with rfl | rfl <;>
      simp [type, Registry.get?, Registry.default, Destination.optional_expr, Destination.same]
  have hne : Destination.same .any type = false := by simp [type, Destination.same]
  obtain ⟨r', hregister⟩ : ∃ r', Registry.default.register .any c = some r' := ⟨_, rfl⟩
  have hget := Registry.get?_register hregister
  have hfree' : r'.get? type = none := by
    rw [hget, hne]
    exact hfree type (.inl rfl)
  have hany : r'.get? .any = some c := by
    rw [hget, if_pos (by simp [Destination.same])]
  refine ⟨hne, rfl, by simp [type], by simp [type], by simp [type], r', hregister, ?_, ?_⟩
  · have hx : bindWithin ⟨.default, []⟩ 1 x .any = .ok (.int 1) :=
      bindWithin_succ_ok_iff.2 (.value (hfree .any (.inr rfl)) rfl)
    have hv : bindWithin ⟨.default, []⟩ 2 (.list none [x]) type = .ok (.list [.int 1]) := by
      rw [bindWithin_elements (hfree type (.inl rfl)) rfl]
      exact bindSequence_ok_iff.2 ⟨_, _, rfl, .cons hx .nil, rfl⟩
    exact bindWithin_mono (by decide) hv
  · have hx : bindWithin ⟨r', []⟩ 1 x .any = .ok (.str "1") := by
      rw [bindWithin_custom hany]
      rfl
    have hv : bindWithin ⟨r', []⟩ 2 (.list none [x]) type = .ok (.list [.str "1"]) := by
      rw [bindWithin_elements hfree' rfl]
      exact bindSequence_ok_iff.2 ⟨_, _, rfl, .cons hx .nil, rfl⟩
    exact bindWithin_mono (Nat.le_of_ble_eq_true rfl) hv

end Binder

end Formulary
