import Formulary.Destination.Bind
import Formulary.Proofs.Outcome
import Mathlib.Data.List.Basic

/-!
# The types that a binding can meet

From a type a binding goes on to the target of an optional type, to the element type of a
sequence, and to the field types of a record. All of these stand inside the type itself or inside
the field types of the family, so there are no more of them than both have nodes.
-/
namespace Formulary

namespace Destination

/-! ## Sizes -/

theorem size_pos (t : Destination) : 0 < t.size := by
  cases t <;> simp only [size] <;> omega

theorem sizeAll_append (ts us : List Destination) :
    sizeAll (ts ++ us) = sizeAll ts + sizeAll us := by
  induction ts with
  | nil => simp [sizeAll]
  | cons t ts ih => simp only [List.cons_append, sizeAll, ih]; omega

theorem sizeAll_filter_le (p : Destination → Bool) (ts : List Destination) :
    sizeAll (ts.filter p) ≤ sizeAll ts := by
  induction ts with
  | nil => simp [sizeAll]
  | cons t ts ih =>
    by_cases h : p t <;> simp [h, sizeAll] <;> omega

theorem sizeAll_distinct_le (ts : List Destination) : sizeAll (distinct ts) ≤ sizeAll ts := by
  induction ts with
  | nil => simp [distinct]
  | cons t ts ih =>
    have h := sizeAll_filter_le (fun u => !same t u) (distinct ts)
    simp only [distinct, sizeAll]
    omega

theorem sizeAll_members_le (t : Destination) : sizeAll t.members ≤ t.size := by
  cases t <;> simp only [members, sizeAll, size] <;> omega

theorem sizeAll_flatMap_members_le (ts : List Destination) :
    sizeAll (ts.flatMap members) ≤ sizeAll ts := by
  induction ts with
  | nil => simp [sizeAll]
  | cons t ts ih =>
    have h := sizeAll_members_le t
    simp only [List.flatMap_cons, sizeAll_append, sizeAll]
    omega

theorem size_unionOf_le (style : UnionStyle) (ts : List Destination) :
    (unionOf style ts).size ≤ 1 + sizeAll ts := by
  have hle : sizeAll (distinct (ts.flatMap members)) ≤ sizeAll ts :=
    Nat.le_trans (sizeAll_distinct_le _) (sizeAll_flatMap_members_le ts)
  unfold unionOf
  split
  next t ht =>
    rw [ht] at hle
    simp only [sizeAll] at hle
    omega
  next us _ =>
    simp only [size]
    omega

mutual

theorem size_plainly_le : (t : Destination) → t.plainly.size ≤ t.size
  | .plain _ | .any | .record _ | .bareSequence _ | .bareTuple | .annotated => by
    simp [plainly, size]
  | .sequence _ t | .tuples t => by
    have := size_plainly_le t
    simp only [plainly, size]
    omega
  | .tuple ts => by
    have := sizeAll_plainlyAll_le ts
    simp only [plainly, size]
    omega
  | .union s ts => by
    have := sizeAll_plainlyAll_le ts
    have := size_unionOf_le s (plainlyAll ts)
    simp only [plainly, size]
    omega
  | .mapping k v => by
    have := size_plainly_le k
    have := size_plainly_le v
    simp only [plainly, size]
    omega

theorem sizeAll_plainlyAll_le : (ts : List Destination) → sizeAll (plainlyAll ts) ≤ sizeAll ts
  | [] => by simp [plainlyAll]
  | t :: ts => by
    have := size_plainly_le t
    have := sizeAll_plainlyAll_le ts
    simp only [plainlyAll, sizeAll]
    omega

end

/-! ## Parts -/

mutual

/-- The type and what stands inside it as an element type or as a member of a union. -/
def parts : Destination → List Destination
  | .sequence s t => .sequence s t :: parts t
  | .tuples t => .tuples t :: parts t
  | .union s ts => .union s ts :: partsAll ts
  | t => [t]

def partsAll : List Destination → List Destination
  | [] => []
  | t :: ts => parts t ++ partsAll ts

end

theorem self_mem_parts (t : Destination) : t ∈ t.parts := by
  cases t <;> simp [parts]

mutual

theorem length_parts_le : (t : Destination) → t.parts.length ≤ t.size
  | .plain _ | .any | .record _ | .bareSequence _ | .bareTuple | .annotated => by
    simp [parts, size]
  | .tuple _ | .mapping _ _ => by
    simp only [parts, size, List.length_singleton]
    omega
  | .sequence _ t | .tuples t => by
    have := length_parts_le t
    simp only [parts, size, List.length_cons]
    omega
  | .union _ ts => by
    have := length_partsAll_le ts
    simp only [parts, size, List.length_cons]
    omega

theorem length_partsAll_le : (ts : List Destination) → (partsAll ts).length ≤ sizeAll ts
  | [] => by simp [partsAll]
  | t :: ts => by
    have := length_parts_le t
    have := length_partsAll_le ts
    simp only [partsAll, sizeAll, List.length_append]
    omega

end

/-- A step of a binding within a type: to the target of an optional type or to the type of the
elements. -/
def Inner (t u : Destination) : Prop :=
  t.optionalTarget? = some u ∨ ∃ isTuple, t.elements? = some (u, isTuple)

theorem eq_union_of_optionalTarget? {t u : Destination} (h : t.optionalTarget? = some u) :
    ∃ style, t = .union style [u, .plain .none] ∨ t = .union style [.plain .none, u] := by
  unfold optionalTarget? at h
  split at h
  next style a b =>
    refine ⟨style, ?_⟩
    split_ifs at h with hb ha
    · cases h
      left
      unfold isNone at hb
      split at hb <;> simp_all
    · cases h
      right
      unfold isNone at ha
      split at ha <;> simp_all
  next => cases h

theorem Inner.mem_parts {t u : Destination} (h : t.Inner u) : u ∈ t.parts ∨ u = .any := by
  rcases h with h | ⟨isTuple, h⟩
  · obtain ⟨style, rfl | rfl⟩ := eq_union_of_optionalTarget? h
    · simp [parts, partsAll, self_mem_parts]
    · simp [parts, partsAll, self_mem_parts]
  · cases t <;> simp only [elements?, reduceCtorEq, Option.some.injEq, Prod.mk.injEq] at h
    all_goals obtain ⟨rfl, -⟩ := h; simp [parts, self_mem_parts]

mutual

theorem parts_trans {u v : Destination} : (t : Destination) → u ∈ t.parts → v ∈ u.parts →
    v ∈ t.parts
  | .plain _, hu, hv | .any, hu, hv | .record _, hu, hv | .bareSequence _, hu, hv
  | .bareTuple, hu, hv | .annotated, hu, hv | .tuple _, hu, hv | .mapping _ _, hu, hv => by
    simp only [parts, List.mem_singleton] at hu
    exact hu ▸ hv
  | .sequence _ t, hu, hv | .tuples t, hu, hv => by
    rw [parts, List.mem_cons] at hu
    rcases hu with rfl | hu
    · exact hv
    · exact List.mem_cons_of_mem _ (parts_trans t hu hv)
  | .union _ ts, hu, hv => by
    rw [parts, List.mem_cons] at hu
    rcases hu with rfl | hu
    · exact hv
    · exact List.mem_cons_of_mem _ (partsAll_trans ts hu hv)

theorem partsAll_trans {u v : Destination} : (ts : List Destination) → u ∈ partsAll ts →
    v ∈ u.parts → v ∈ partsAll ts
  | [], hu, _ => by simp [partsAll] at hu
  | t :: ts, hu, hv => by
    rw [partsAll, List.mem_append] at hu ⊢
    rcases hu with hu | hu
    · exact .inl (parts_trans t hu hv)
    · exact .inr (partsAll_trans ts hu hv)

end

end Destination

/-! ## Slots -/

namespace RecordDecl

theorem slot_type {record : String} {place : Nat} {hasRest : Bool} {f : FieldDecl} {s : Slot}
    (h : slot record place hasRest f = .ok s) : s.type = f.type.plainly := by
  unfold slot at h
  grind

theorem slots_cons {record : String} {place : Nat} {hasRest : Bool} {f : FieldDecl}
    {fs : List FieldDecl} {s : Slot} {ss : List Slot} (h : slot record place hasRest f = .ok s)
    (hs : slots record (place + 1) (hasRest || s.isRest) fs = .ok ss) :
    slots record place hasRest (f :: fs) = .ok (s :: ss) := by
  simp only [slots, h, hs, bind, Except.bind, pure, Except.pure]

theorem slots_cons_inv {record : String} {place : Nat} {hasRest : Bool} {f : FieldDecl}
    {fs : List FieldDecl} {ss : List Slot} (h : slots record place hasRest (f :: fs) = .ok ss) :
    ∃ s rest, slot record place hasRest f = .ok s ∧
      slots record (place + 1) (hasRest || s.isRest) fs = .ok rest ∧ ss = s :: rest := by
  rw [slots] at h
  obtain ⟨s, hs, h⟩ := bind_ok_iff.1 h
  obtain ⟨rest, hrest, h⟩ := bind_ok_iff.1 h
  cases h
  exact ⟨s, rest, hs, hrest, rfl⟩

theorem slots_types {record : String} {place : Nat} {hasRest : Bool} {fs : List FieldDecl}
    {ss : List Slot} (h : slots record place hasRest fs = .ok ss) :
    ∀ s ∈ ss, ∃ f ∈ fs, s.type = f.type.plainly := by
  induction fs generalizing place hasRest ss with
  | nil =>
    cases h
    simp
  | cons f fs ih =>
    obtain ⟨s, rest, hs, hrest, rfl⟩ := slots_cons_inv h
    intro s' hs'
    rcases List.mem_cons.1 hs' with rfl | hs'
    · exact ⟨f, List.mem_cons_self, slot_type hs⟩
    · obtain ⟨g, hg, hgt⟩ := ih hrest s' hs'
      exact ⟨g, List.mem_cons_of_mem _ hg, hgt⟩

/-- A `&rest` slot stands at its place among the fields. -/
theorem slots_rest_position {record : String} {place : Nat} {hasRest : Bool}
    {fs : List FieldDecl} {ss : List Slot} (h : slots record place hasRest fs = .ok ss) :
    ∀ s ∈ ss, s.isRest = true → place ≤ s.position := by
  induction fs generalizing place hasRest ss with
  | nil =>
    cases h
    simp
  | cons f fs ih =>
    obtain ⟨s, rest, hs, hrest, rfl⟩ := slots_cons_inv h
    rw [List.forall_mem_cons]
    constructor
    · intro hisRest
      unfold slot at hs
      grind
    · intro s' hs' hisRest
      exact Nat.le_of_succ_le (ih hrest s' hs' hisRest)

/-- A `&rest` slot that takes the whole list is the first slot. -/
theorem eq_cons_of_rest {record : String} {fs : List FieldDecl} {ss : List Slot} {s : Slot}
    (h : slots record 0 false fs = .ok ss) (hmem : s ∈ ss) (hrest : s.isRest = true)
    (hfirst : s.position = 0) : ∃ ss', ss = s :: ss' := by
  cases fs with
  | nil =>
    cases h
    cases hmem
  | cons f fs =>
    obtain ⟨s', ss', -, hss', rfl⟩ := slots_cons_inv h
    rcases List.mem_cons.1 hmem with rfl | hmem
    · exact ⟨ss', rfl⟩
    · have := slots_rest_position hss' s hmem hrest
      omega

end RecordDecl

namespace Family

/-- The types of all fields, without notes. -/
def fieldTypes (family : Family) : List Destination :=
  (family.flatMap (·.fields)).map (·.type.plainly)

/-- A shape comes from the slots of a declaration whose field types name declared records only. -/
theorem exists_decl {family : Family} {name : String} {shape : Shape}
    (h : family.shape name = .ok shape) :
    ∃ d ∈ family, d.name = name ∧ shape.name = name ∧
      (∀ f ∈ d.fields, ∀ name' ∈ f.type.records, name' ∈ family.map (·.name)) ∧
      RecordDecl.slots name 0 false (d.fields.filter (·.isBound)) = .ok shape.slots := by
  unfold Family.shape at h
  split at h
  next d hd =>
    have hname : d.name = name := by simpa using List.find?_some hd
    subst hname
    unfold RecordDecl.compile at h
    simp only at h
    split at h
    · cases h
    next hresolved =>
      obtain ⟨slots, hslots, rfl⟩ := map_ok_iff.1 h
      refine ⟨d, List.mem_of_find?_eq_some hd, rfl, rfl, ?_, hslots⟩
      intro f hf name' hname'
      have := List.find?_eq_none.1 hresolved name' (List.mem_flatMap_of_mem hf hname')
      simpa using this
  next => cases h

theorem shape_of_slots {family : Family} {d : RecordDecl} {slots : List Slot}
    (hfound : family.find? (·.name == d.name) = some d)
    (hresolved : (d.fields.flatMap (·.type.records)).find?
      (fun name => !family.any (·.name == name)) = none)
    (hslots : RecordDecl.slots d.name 0 false (d.fields.filter (·.isBound)) = .ok slots) :
    family.shape d.name = .ok ⟨d.name, slots⟩ := by
  unfold Family.shape RecordDecl.compile
  rw [hfound]
  dsimp only
  rw [hresolved]
  dsimp only
  rw [hslots]
  rfl

theorem shape_ok {family : Family} {name : String} {shape : Shape}
    (h : family.shape name = .ok shape) :
    shape.name = name ∧ ∀ slot ∈ shape.slots, slot.type ∈ family.fieldTypes := by
  obtain ⟨d, hd, -, hname, -, hslots⟩ := exists_decl h
  refine ⟨hname, fun slot hslot => ?_⟩
  obtain ⟨f, hf, hft⟩ := RecordDecl.slots_types hslots slot hslot
  rw [hft]
  exact List.mem_map_of_mem (List.mem_flatMap_of_mem hd (List.mem_filter.1 hf).1)

/-- The types that a binding to the given type can meet. -/
def typesAtHand (family : Family) (type : Destination) : List Destination :=
  .any :: type.parts ++ Destination.partsAll family.fieldTypes

theorem mem_typesAtHand_self {family : Family} {type : Destination} :
    type ∈ family.typesAtHand type := by
  simp [typesAtHand, Destination.self_mem_parts]

theorem typesAtHand_inner {family : Family} {type t u : Destination}
    (ht : t ∈ family.typesAtHand type) (h : t.Inner u) : u ∈ family.typesAtHand type := by
  simp only [typesAtHand, List.cons_append, List.mem_cons, List.mem_append] at ht ⊢
  rcases h.mem_parts with hu | rfl
  · rcases ht with rfl | ht | ht
    · simp only [Destination.parts, List.mem_singleton] at hu
      exact .inl hu
    · exact .inr (.inl (Destination.parts_trans _ ht hu))
    · exact .inr (.inr (Destination.partsAll_trans _ ht hu))
  · exact .inl rfl

theorem mem_partsAll_of_mem {t : Destination} {ts : List Destination} (h : t ∈ ts) :
    t ∈ Destination.partsAll ts := by
  induction ts with
  | nil => cases h
  | cons u ts ih =>
    rw [Destination.partsAll, List.mem_append]
    rcases List.mem_cons.1 h with rfl | h
    · exact .inl (Destination.self_mem_parts _)
    · exact .inr (ih h)

theorem typesAtHand_slot {family : Family} {type : Destination} {name : String} {shape : Shape}
    (h : family.shape name = .ok shape) {slot : Slot} (hslot : slot ∈ shape.slots) :
    slot.type ∈ family.typesAtHand type := by
  apply List.mem_append_right
  exact mem_partsAll_of_mem ((shape_ok h).2 slot hslot)

theorem sizeAll_fieldTypes_le (family : Family) :
    Destination.sizeAll family.fieldTypes ≤ family.size := by
  unfold fieldTypes size
  induction family.flatMap (·.fields) with
  | nil => simp [Destination.sizeAll]
  | cons f fs ih =>
    have := Destination.size_plainly_le f.type
    simp only [List.map_cons, Destination.sizeAll, List.foldr_cons]
    omega

theorem length_typesAtHand_le (family : Family) (type : Destination) :
    (family.typesAtHand type).length ≤ type.size + family.size + 1 := by
  have h := type.length_parts_le
  have h' := Destination.length_partsAll_le family.fieldTypes
  have h'' := family.sizeAll_fieldTypes_le
  simp only [typesAtHand, List.cons_append, List.length_cons, List.length_append]
  omega

end Family

end Formulary
