import Formulary.Proofs.Destination.Conformance
import Mathlib.Logic.Relation
import Mathlib.Order.WellFoundedSet

/-!
# Bindings that end

A binding goes on to smaller expressions, or it passes the same expression on to another type: to
the target of an optional type, or to the type of a `&rest` field in first place. If no record
that the type leads to has its list passed back to itself, then the binding ends, with a value or
with an error of its own. If a record has, then no list that is long enough is ever bound to it.
-/
namespace Formulary

/-! ## Records that a type leads to -/

namespace Destination

/-- All records that the type names are among the given ones. -/
def Over (names : Set String) (type : Destination) : Prop := ∀ name ∈ type.records, name ∈ names

theorem mem_recordsAll {name : String} {ts : List Destination} :
    name ∈ recordsAll ts ↔ ∃ t ∈ ts, name ∈ t.records := by
  induction ts with
  | nil => simp [recordsAll]
  | cons t ts ih => simp [recordsAll, ih]

theorem mem_of_mem_distinct {t : Destination} {ts : List Destination} (h : t ∈ distinct ts) :
    t ∈ ts := by
  induction ts with
  | nil => simp [distinct] at h
  | cons u ts ih =>
    rw [distinct, List.mem_cons] at h
    rcases h with rfl | h
    · exact List.mem_cons_self
    · exact List.mem_cons_of_mem _ (ih (List.mem_filter.1 h).1)

theorem records_of_mem_members {t u : Destination} (h : u ∈ t.members) {name : String}
    (hname : name ∈ u.records) : name ∈ t.records := by
  unfold members at h
  split at h
  · exact mem_recordsAll.2 ⟨u, h, hname⟩
  · rw [List.mem_singleton] at h
    exact h ▸ hname

theorem records_unionOf {style : UnionStyle} {ts : List Destination} {name : String}
    (h : name ∈ (unionOf style ts).records) : name ∈ recordsAll ts := by
  have hdistinct : name ∈ recordsAll (distinct (ts.flatMap members)) := by
    unfold unionOf at h
    split at h
    next t ht => simpa [ht, recordsAll] using h
    next => exact h
  obtain ⟨u, hu, hname⟩ := mem_recordsAll.1 hdistinct
  obtain ⟨t, ht, hmember⟩ := List.mem_flatMap.1 (mem_of_mem_distinct hu)
  exact mem_recordsAll.2 ⟨t, ht, records_of_mem_members hmember hname⟩

mutual

/-- A type without its notes names no further records. -/
theorem records_plainly {name : String} :
    (t : Destination) → name ∈ t.plainly.records → name ∈ t.records
  | .plain _, h | .any, h | .record _, h | .bareSequence _, h | .bareTuple, h => h
  | .annotated, h => by simp [plainly, records] at h
  | .sequence _ t, h | .tuples t, h => records_plainly t h
  | .tuple ts, h => recordsAll_plainlyAll ts h
  | .union _ ts, h => recordsAll_plainlyAll ts (records_unionOf h)
  | .mapping k v, h => by
    rw [plainly, records, List.mem_append] at h
    rw [records, List.mem_append]
    exact h.imp (records_plainly k) (records_plainly v)

theorem recordsAll_plainlyAll {name : String} :
    (ts : List Destination) → name ∈ recordsAll (plainlyAll ts) → name ∈ recordsAll ts
  | [], h => h
  | t :: ts, h => by
    rw [plainlyAll, recordsAll, List.mem_append] at h
    rw [recordsAll, List.mem_append]
    exact h.imp (records_plainly t) (recordsAll_plainlyAll ts)

end

variable {known : Set String} {type t : Destination}

theorem Over.of_target (h : type.Over known) (ht : type.optionalTarget? = some t) :
    t.Over known := by
  intro name hname
  obtain ⟨style, rfl | rfl⟩ := eq_union_of_optionalTarget? ht
  all_goals exact h name (mem_recordsAll.2 ⟨t, by simp, hname⟩)

theorem size_lt_of_target (ht : type.optionalTarget? = some t) : t.size < type.size := by
  obtain ⟨style, rfl | rfl⟩ := eq_union_of_optionalTarget? ht
  all_goals
    simp only [size, sizeAll]
    omega

theorem Over.of_elements {isTuple : Bool} (h : type.Over known)
    (ht : type.elements? = some (t, isTuple)) : t.Over known := by
  intro name hname
  cases type <;> simp only [elements?, reduceCtorEq, Option.some.injEq, Prod.mk.injEq] at ht
  all_goals
    obtain ⟨rfl, -⟩ := ht
    exact h name hname

end Destination

namespace Family

/-- Every declared record has a shape. -/
def Compiles (family : Family) : Prop :=
  ∀ name ∈ family.map (·.name), ∃ shape, family.shape name = .ok shape

/-- The type is built over the records of the family. -/
def Carries (family : Family) (type : Destination) : Prop :=
  type.Over {name | name ∈ family.map (·.name)}

/-- The records that a binding to the type can come to. -/
inductive Needs (family : Family) (type : Destination) : String → Prop where
  | named {name} (h : name ∈ type.records) : Needs family type name
  | field {name shape slot name'} (h : Needs family type name)
      (compiled : family.shape name = .ok shape) (mem : slot ∈ shape.slots)
      (hname : name' ∈ slot.type.records) : Needs family type name'

/-- The record has its list passed back to itself. -/
def Circular (family : Family) (name : String) : Prop :=
  Relation.TransGen family.Passes (.record name) (.record name)

/-- The known records have shapes, and their fields name known records in turn. -/
def Closed (family : Family) (known : Set String) : Prop :=
  ∀ name ∈ known, ∃ shape, family.shape name = .ok shape ∧
    ∀ slot ∈ shape.slots, slot.type.Over known

variable {family : Family} {known : Set String} {type t : Destination}

theorem carries_of_shape {name : String} {shape : Shape} (h : family.shape name = .ok shape)
    {slot : Slot} (hslot : slot ∈ shape.slots) : family.Carries slot.type := by
  obtain ⟨d, -, -, -, hresolved, hslots⟩ := exists_decl h
  obtain ⟨f, hf, hft⟩ := RecordDecl.slots_types hslots slot hslot
  intro name' hname'
  rw [hft] at hname'
  exact hresolved f (List.mem_filter.1 hf).1 name' (Destination.records_plainly f.type hname')

theorem Compiles.closed_needs (h : family.Compiles) (htype : family.Carries type) :
    family.Closed {name | family.Needs type name} := by
  intro name hname
  have hdeclared : name ∈ family.map (·.name) := by
    cases hname with
    | named hmem => exact htype name hmem
    | field _ hshape hslot hmem => exact carries_of_shape hshape hslot name hmem
  obtain ⟨shape, hshape⟩ := h name hdeclared
  exact ⟨shape, hshape, fun slot hslot name' hname' => .field hname hshape hslot hname'⟩

theorem Closed.over_of_slot (h : family.Closed known) {name : String}
    (hname : (Destination.record name).Over known) {shape : Shape}
    (hshape : family.shape name = .ok shape) {slot : Slot} (hslot : slot ∈ shape.slots) :
    slot.type.Over known := by
  obtain ⟨shape', hshape', hslots⟩ := h name (hname name (List.mem_singleton_self name))
  cases hshape'.symm.trans hshape
  exact hslots slot hslot

/-! ## Types that pass an expression on -/

theorem Closed.over_of_passes (h : family.Closed known) (htype : type.Over known)
    (hpass : family.Passes type t) : t.Over known := by
  cases hpass with
  | target htarget => exact htype.of_target htarget
  | rest hshape hslot => exact h.over_of_slot htype hshape hslot

/-- Targets are smaller, so a longer way that does not lead to a smaller type goes through a
record. -/
theorem smaller_or_through_record (h : Relation.TransGen family.Passes type t) :
    t.size < type.size ∨ ∃ name, Relation.ReflTransGen family.Passes type (.record name) ∧
      Relation.TransGen family.Passes (.record name) t := by
  induction h with
  | single hpass =>
    cases hpass with
    | target htarget => exact .inl (Destination.size_lt_of_target htarget)
    | rest hshape hslot hrest hfirst =>
      exact .inr ⟨_, .refl, .single (.rest hshape hslot hrest hfirst)⟩
  | tail hway hpass ih =>
    cases hpass with
    | target htarget =>
      rcases ih with hlt | ⟨name, hto, hfrom⟩
      · exact .inl ((Destination.size_lt_of_target htarget).trans hlt)
      · exact .inr ⟨name, hto, hfrom.tail (.target htarget)⟩
    | rest hshape hslot hrest hfirst =>
      exact .inr ⟨_, hway.to_reflTransGen, .single (.rest hshape hslot hrest hfirst)⟩

theorem Closed.over_of_way (h : family.Closed known) (htype : type.Over known)
    (hway : Relation.ReflTransGen family.Passes type t) : t.Over known := by
  induction hway with
  | refl => exact htype
  | tail _ hpass ih => exact h.over_of_passes ih hpass

theorem Closed.not_transGen_self (h : family.Closed known)
    (hnot : ∀ name ∈ known, ¬ family.Circular name) (htype : type.Over known) :
    ¬ Relation.TransGen family.Passes type type := by
  intro hcycle
  rcases smaller_or_through_record hcycle with hlt | ⟨name, hto, hfrom⟩
  · exact absurd hlt (Nat.lt_irrefl _)
  · have hname := h.over_of_way htype hto name (List.mem_singleton_self name)
    exact hnot name hname (hfrom.trans_left hto)

theorem typesAtHand_passes {goal : Destination} (ht : t ∈ family.typesAtHand goal)
    {u : Destination} (hpass : family.Passes t u) : u ∈ family.typesAtHand goal := by
  cases hpass with
  | target htarget => exact typesAtHand_inner ht (.inl htarget)
  | rest hshape hslot => exact typesAtHand_slot hshape hslot

/-- If no record has its list passed back to itself, then what holds of a type whenever it holds
of those it passes its expression on to, holds of every type. -/
theorem Closed.induction_on_passes (h : family.Closed known)
    (hnot : ∀ name ∈ known, ¬ family.Circular name) {P : Destination → Prop}
    (hstep : ∀ t, t.Over known → (∀ u, family.Passes t u → P u) → P t)
    (htype : type.Over known) : P type := by
  -- The order is that of the ways between the finitely many types at hand.
  let After (u t : Destination) : Prop := t.Over known ∧ Relation.TransGen family.Passes t u
  have : IsStrictOrder Destination After :=
    { irrefl := fun t ht => h.not_transGen_self hnot ht.1 ht.2
      trans := fun a b c hab hbc => ⟨hbc.1, hbc.2.trans hab.2⟩ }
  have hfinite : {t | t ∈ family.typesAtHand type}.Finite := List.finite_toSet _
  have hmem : type ∈ {t | t ∈ family.typesAtHand type} := mem_typesAtHand_self
  refine (hfinite.wellFoundedOn (r := After)).induction hmem (P := fun t => t.Over known → P t)
    ?_ htype
  intro t ht ih hover
  refine hstep t hover fun u hpass => ?_
  exact ih u (typesAtHand_passes ht hpass) ⟨hover, .single hpass⟩ (h.over_of_passes hover hpass)

end Family

/-! ## Bindings that end -/

theorem BindError.kind_place {wrap : BindError → BindError} {cause : BindError}
    (h : cause.kind = .binding) (hwrap : ∀ cause, (wrap cause).kind = .binding) :
    (cause.place wrap).kind = .binding := by
  have hplace : cause.place wrap = wrap cause := by
    rw [place, isPlaceable, h]
    rfl
  rw [hplace]
  exact hwrap cause

/-- The outcome is a value, or an error of the binder itself. -/
inductive Settled {α : Type} : Except BindError α → Prop where
  | value (a : α) : Settled (.ok a)
  | failure {cause : BindError} (h : cause.kind = .binding) : Settled (.error cause)

namespace Settled

variable {α β : Type} {x : Except BindError α}

theorem map (f : α → β) (h : Settled x) : Settled (x.map f) := by
  cases h with
  | value a => exact .value (f a)
  | failure h => exact .failure h

theorem bind {f : α → Except BindError β} (h : Settled x) (hf : ∀ a, x = .ok a → Settled (f a)) :
    Settled (x >>= f) := by
  cases h with
  | value a => exact hf a rfl
  | failure h => exact .failure h

theorem place {wrap : BindError → BindError} (h : Settled x)
    (hwrap : ∀ cause, (wrap cause).kind = .binding) :
    Settled (x.mapError (·.place wrap)) := by
  cases h with
  | value a => exact .value a
  | failure h => exact .failure (BindError.kind_place h hwrap)

end Settled

namespace Binder

section Calls

variable {f : Expr → Destination → Except BindError Native} {e : Expr} {es : List Expr}

theorem checkLength_settled (shape : Shape) (length : Nat) :
    Settled (checkLength shape e length) := by
  unfold checkLength
  split_ifs
  · exact .failure rfl
  · split
    · split_ifs
      · exact .failure rfl
      · exact .value ()
    · exact .value ()

theorem bindElements_settled {f : Expr → Except BindError Native} (type : Destination)
    (h : ∀ x ∈ es, Settled (f x)) (index : Nat) : Settled (bindElements f type index es) := by
  induction es generalizing index with
  | nil => exact .value []
  | cons x es ih =>
    obtain ⟨hx, hes⟩ := List.forall_mem_cons.1 h
    rw [bindElements]
    generalize f x = outcome at hx
    cases hx with
    | value v => exact (ih hes (index + 1)).map _
    | failure hcause => exact .failure (BindError.kind_place hcause fun _ => rfl)

theorem bindSlots_settled {slots : List Slot}
    (h : ∀ slot ∈ slots, ∀ x, slot.component? es = some x → Settled (f x slot.type)) :
    Settled (bindSlots f e es slots) := by
  induction slots with
  | nil => exact .value []
  | cons slot slots ih =>
    rw [List.forall_mem_cons] at h
    rw [bindSlots]
    have hslot : Settled (bindSlot f e es slot) := by
      have h := h.1
      unfold Slot.component? at h
      unfold bindSlot
      split_ifs at h ⊢ with hrest
      · exact (h _ rfl).place fun _ => rfl
      · cases hx : es[slot.position]? with
        | none => exact .failure rfl
        | some x => exact (h x hx).place fun _ => rfl
    exact hslot.bind fun _ _ => (ih h.2).bind fun _ _ => .value _

end Calls

variable {family : Family} {known : Set String} {n m : Nat} {e x : Expr} {type t : Destination}

theorem Part.over (h : Part family e type x t) (hfamily : family.Closed known)
    (htype : type.Over known) : t.Over known := by
  cases h with
  | target htarget => exact htype.of_target htarget
  | slot hshape _ hslot => exact hfamily.over_of_slot htype hshape hslot
  | element hseq => exact htype.of_elements hseq

/-- A step is settled if its parts are. -/
theorem settled_succ (hfamily : family.Closed known) (htype : type.Over known)
    (h : ∀ x t, Part family e type x t → Settled (bindWithin { family := family } n x t)) :
    Settled (bindWithin { family := family } (n + 1) e type) := by
  unfold bindWithin
  split
  next custom hcustom =>
    rw [default_given hcustom]
    exact .value _
  · split
    · exact .value _
    · split
      next htarget => exact h e _ (.target htarget)
      next name _ _ _ =>
        obtain ⟨shape, hshape, -⟩ := hfamily name (htype name (List.mem_singleton_self name))
        rw [hshape]
        dsimp only [bindRecord]
        cases e with
        | atom s a => exact .failure rfl
        | list s es =>
          refine (checkLength_settled shape _).bind fun _ hlength => ?_
          have hfits := checkLength_ok_iff.1 hlength
          refine (bindSlots_settled ?_).bind fun _ _ => .value _
          exact fun slot hslot x hx => h x slot.type (.slot hshape hfits hslot hx)
      next hseq =>
        dsimp only [bindSequence]
        cases e with
        | atom s a => exact .failure rfl
        | list s es => exact (bindElements_settled _ (fun x hx => h x _ (.element hseq hx)) 0).map _
      next =>
        split_ifs
        · exact .failure rfl
        · exact .failure rfl

theorem ends_of_settled (h : Settled (bindWithin { family := family } n e type)) :
    Ends { family := family } n e type := by
  intro hunfinished
  rw [hunfinished] at h
  cases h with
  | failure h => cases h

theorem size_le_of_part (h : Part family e type x t) : x.size ≤ e.size := by
  rcases h.smaller_or_passed with hlt | ⟨-, s, rfl⟩
  · exact Nat.le_of_lt hlt
  · exact Nat.le_of_eq (e.size_withSource s)

/-- A binding is settled if its parts are. -/
theorem settled_bind_of_parts (hfamily : family.Closed known) (htype : type.Over known)
    (h : ∀ x t, Part family e type x t → Settled (bind { family := family } x t)) :
    Settled (bind { family := family } e type) := by
  -- One number of steps is enough for all parts.
  set enough := e.size * (family.typesAtHand type).length
  have hparts : ∀ x t, Part family e type x t →
      Settled (bindWithin { family := family } enough x t) := by
    intro x t hpart
    have hmem := hpart.mem_typesAtHand Family.mem_typesAtHand_self
    have hends := Ends.of_size default_ignoresSources hmem (ends_of_settled (h x t hpart))
    have hle := Nat.mul_le_mul_right (family.typesAtHand type).length (size_le_of_part hpart)
    rw [← (hends.mono hle).bind_eq default_ignoresSources]
    exact h x t hpart
  have hsettled := settled_succ hfamily htype hparts
  rw [(ends_of_settled hsettled).bind_eq default_ignoresSources]
  exact hsettled

/-- If no known record has its list passed back to itself, then every binding to a type over the
known records is settled. -/
theorem settled_bind (hfamily : family.Closed known)
    (hnot : ∀ name ∈ known, ¬ family.Circular name) (e : Expr) (htype : type.Over known) :
    Settled (bind { family := family } e type) := by
  -- Parts are smaller, or they are given an expression of the same size and another type, so the
  -- induction is on the size first and on the types second.
  induction hsize : e.size using Nat.strong_induction_on generalizing e type with
  | _ size ih =>
    refine hfamily.induction_on_passes hnot
      (P := fun t => ∀ e : Expr, e.size = size → Settled (bind { family := family } e t))
      ?_ htype e hsize
    intro t ht hpassed e hsize
    refine settled_bind_of_parts hfamily ht fun x u hpart => ?_
    rcases hpart.smaller_or_passed with hlt | ⟨hpass, s, rfl⟩
    · exact ih x.size (hsize ▸ hlt) x (hpart.over hfamily ht) rfl
    · exact hpassed u hpass _ ((e.size_withSource s).trans hsize)

/-! ## Bindings that do not end -/

theorem free_record (name : String) : Registry.default.get? (.record name) = none := by
  simp [Registry.get?, Registry.default, Destination.optional_expr, Destination.same]

theorem free_of_target (ht : type.optionalTarget? = some t) (hexpr : t ≠ .plain .expr) :
    Registry.default.get? type = none := by
  cases hget : Registry.default.get? type with
  | none => rfl
  | some custom =>
    rcases Destination.registered_default hget with rfl | hsame
    · cases ht
    · exact absurd (Destination.target_eq_expr_of_same hsame ht) hexpr

theorem unfinished_of_le (hle : n ≤ m)
    (h : bindWithin { family := family } m e type = .error .unfinished) :
    bindWithin { family := family } n e type = .error .unfinished :=
  (bindWithin_approx hle).elim id fun heq => heq.trans h

theorem unfinished_target (ht : type.optionalTarget? = some t) (hexpr : t ≠ .plain .expr)
    (h : bindWithin { family := family } n e t = .error .unfinished) :
    bindWithin { family := family } (n + 1) e type = .error .unfinished := by
  rwa [bindWithin_target (free_of_target ht hexpr) ht]

/-- A record that passes its list on does not end if its first field does not. -/
theorem unfinished_rest {name : String} {shape : Shape} {slot : Slot} {slots : List Slot}
    {source : Source} {es : List Expr} (hshape : family.shape name = .ok shape)
    (hslots : shape.slots = slot :: slots) (hrest : slot.isRest = true)
    (hfirst : slot.position = 0) (hlength : shape.minLength ≤ es.length)
    (h : bindWithin { family := family } n (.list none es) slot.type = .error .unfinished) :
    bindWithin { family := family } (n + 1) (.list source es) (.record name) =
      .error .unfinished := by
  have hfits : shape.Fits es.length := by
    refine ⟨hlength, ?_⟩
    simp [Shape.maxLength?, Shape.hasRest, hslots, hrest]
  have hslot : bindSlot (bindWithin { family := family } n) (.list source es) es slot =
      .error .unfinished := by
    rw [bindSlot, if_pos hrest, hfirst, List.drop_zero, h]
    rfl
  rw [bindWithin_record (free_record name) hshape]
  simp only [bindRecord, Expr.elems?, checkLength_ok_iff.2 hfits, hslots, bindSlots, hslot]
  rfl

/-- The list is not bound in so many nested steps. -/
def Stalls (family : Family) (n : Nat) (es : List Expr) (type : Destination) : Prop :=
  ∀ source, bindWithin { family := family } n (.list source es) type = .error .unfinished

theorem exists_stalls_of_passes (hpass : family.Passes type t) (hexpr : t ≠ .plain .expr) :
    ∃ k, ∀ n es, k ≤ es.length → Stalls family n es t → Stalls family (n + 1) es type := by
  cases hpass with
  | target htarget =>
    exact ⟨0, fun n es _ h source => unfinished_target htarget hexpr (h source)⟩
  | @rest name shape slot hshape hslot hrest hfirst =>
    obtain ⟨d, -, -, -, -, hslots⟩ := Family.exists_decl hshape
    obtain ⟨slots, hcons⟩ := RecordDecl.eq_cons_of_rest hslots hslot hrest hfirst
    refine ⟨shape.minLength, fun n es hlength h source => ?_⟩
    exact unfinished_rest hshape hcons hrest hfirst hlength (h none)

/-- A list that is long enough for every record on the way stalls if it stalls at its end. -/
theorem exists_stalls_of_way {name : String}
    (hway : Relation.TransGen family.Passes type (.record name)) :
    ∃ k, ∀ n es, k ≤ es.length →
      Stalls family n es (.record name) → Stalls family (n + 1) es type := by
  induction hway using Relation.TransGen.head_induction_on with
  | single hpass => exact exists_stalls_of_passes hpass fun h => by cases h
  | @head type t hpass hway ih =>
    have hexpr : t ≠ .plain .expr := by
      rintro rfl
      obtain ⟨u, hfirst, -⟩ := Relation.TransGen.head'_iff.1 hway
      cases hfirst with
      | target htarget => cases htarget
    obtain ⟨k, hk⟩ := exists_stalls_of_passes hpass hexpr
    obtain ⟨k', hk'⟩ := ih
    refine ⟨max k k', fun n es hlength h => hk n es (le_of_max_le_left hlength) ?_⟩
    intro source
    exact unfinished_of_le (Nat.le_succ n) (hk' n es (le_of_max_le_right hlength) h source)

theorem exists_stalls_of_circular {name : String} (h : family.Circular name) :
    ∃ k, ∀ es : List Expr, k ≤ es.length → ∀ n, Stalls family n es (.record name) := by
  obtain ⟨k, hk⟩ := exists_stalls_of_way h
  refine ⟨k, fun es hlength n => ?_⟩
  induction n with
  | zero => exact fun source => rfl
  | succ n ih => exact hk n es hlength ih

/-! ## The bindings of a family -/

/-- The recursion of the binding ends, with a value or with an error of the binder itself. -/
def Terminates (family : Family) (e : Expr) (type : Destination) : Prop :=
  Settled (bind { family := family } e type) ∧ ∃ n, ∀ m, n ≤ m →
    bindWithin { family := family } m e type = bind { family := family } e type

theorem Terminates.of_settled (h : Settled (bind { family := family } e type)) :
    Terminates family e type :=
  ⟨h, _, fun _ hle => (ends_of_settled h).eq_of_le hle⟩

/-- A binding to a type over the records of a family ends with a value or with an error of its
own, unless the type leads to a record that has its list passed back to itself. No binding of a
long enough list to such a record ever ends. -/
theorem terminates_of_not_circular (hfamily : family.Compiles) :
    (∀ e type, family.Carries type → (∀ name, family.Needs type name → ¬ family.Circular name) →
      Terminates family e type) ∧
    (∀ name, family.Circular name → ∃ k, ∀ source (es : List Expr), k ≤ es.length →
      ∀ n, bindWithin { family := family } n (.list source es) (.record name) =
        .error .unfinished) := by
  constructor
  · intro e type htype hnot
    have hclosed := hfamily.closed_needs htype
    exact .of_settled (settled_bind hclosed hnot e fun name hname => .named hname)
  · intro name hcircular
    obtain ⟨k, hk⟩ := exists_stalls_of_circular hcircular
    exact ⟨k, fun source es hlength n => hk es hlength n source⟩

theorem calls_compiles : calls.Compiles := by
  intro name hname
  rw [List.mem_singleton.1 hname]
  exact ⟨_, shape_calls⟩

theorem calls_needs {name : String} {type : Destination} (htype : calls.Carries type)
    (h : calls.Needs type name) : name = "Call" := by
  cases h with
  | named hmem => exact List.mem_singleton.1 (htype name hmem)
  | field _ hshape hslot hmem =>
    exact List.mem_singleton.1 (Family.carries_of_shape hshape hslot name hmem)

theorem calls_not_circular : ¬ calls.Circular "Call" := by
  intro h
  obtain ⟨t, hpass, -⟩ := Relation.TransGen.head'_iff.1 h
  cases hpass with
  | target htarget => cases htarget
  | rest hshape hslot hrest hfirst =>
    cases shape_calls.symm.trans hshape
    rcases List.mem_pair.1 hslot with rfl | rfl
    · cases hrest
    · cases hfirst

/-- A record whose only field takes the whole list for a record of the same kind. -/
def loopDecl : RecordDecl := ⟨"Loop", [⟨"all", .record "Loop", "&rest", true⟩]⟩

def loops : Family := [loopDecl]

def loopSlot : Slot := ⟨"all", .record "Loop", 0, true⟩

theorem shape_loops : loops.shape "Loop" = .ok ⟨"Loop", [loopSlot]⟩ := by
  have hresolved : (loopDecl.fields.flatMap (·.type.records)).find?
      (fun name => !loops.any (·.name == name)) = none := by decide +kernel
  have hrest := RecordDecl.slot_rest "Loop" 0 (f := ⟨"all", .record "Loop", "&rest", true⟩) rfl
  have hslots : RecordDecl.slots "Loop" 0 false loopDecl.fields = .ok [loopSlot] :=
    RecordDecl.slots_cons hrest rfl
  exact Family.shape_of_slots (d := loopDecl) rfl hresolved hslots

theorem loops_compiles : loops.Compiles := by
  intro name hname
  rw [List.mem_singleton.1 hname]
  exact ⟨_, shape_loops⟩

theorem loops_circular : loops.Circular "Loop" :=
  .single (.rest shape_loops (List.mem_singleton_self loopSlot) rfl rfl)

theorem terminates_of_not_circular_calls :
    let type : Destination := .sequence .list (.record "Call")
    let e : Expr := .list none [.list none [.atom none (.symbol ⟨"f", ""⟩), .list none []]]
    calls.Compiles ∧ calls.Carries type ∧
      (∀ name, calls.Needs type name → ¬ calls.Circular name) ∧ Terminates calls e type ∧
      loops.Compiles ∧ loops.Circular "Loop" ∧ ∃ k, ∀ source (es : List Expr), k ≤ es.length →
        ∀ n, bindWithin { family := loops } n (.list source es) (.record "Loop") =
          .error .unfinished := by
  intro type e
  have htype : calls.Carries type := fun name hname => hname
  have hnot : ∀ name, calls.Needs type name → ¬ calls.Circular name := by
    intro name hname
    rw [calls_needs htype hname]
    exact calls_not_circular
  have hends := (terminates_of_not_circular calls_compiles).1 e type htype hnot
  have hstalls := (terminates_of_not_circular loops_compiles).2 "Loop" loops_circular
  exact ⟨calls_compiles, htype, hnot, hends, loops_compiles, loops_circular, hstalls⟩

/-- Not every binding to a type over the records of a family ends: the empty list is passed on
without end. -/
theorem not_terminates : ¬ ∀ (family : Family) (e : Expr) (type : Destination),
    family.Compiles → family.Carries type → Terminates family e type := by
  intro h
  have hstalls : ∀ n, Stalls loops n [] (.record "Loop") := by
    intro n
    induction n with
    | zero => exact fun source => rfl
    | succ n ih =>
      exact fun source => unfinished_rest shape_loops rfl rfl rfl (Nat.le_refl 0) (ih none)
  have hends := h loops (.list none []) (.record "Loop") loops_compiles fun name hname => hname
  exact ends_of_settled hends.1 (hstalls _ none)

end Binder

end Formulary
