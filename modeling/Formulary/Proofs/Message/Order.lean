import Formulary.Message.Error
import Formulary.Proofs.Message.Json

/-!
# The order of fields

A document holds the fields of every object in the order of their keys. Putting them in order
changes neither the text of a message nor what is found under a key.
-/
namespace Formulary

theorem mem_of_lookup {α : Type} {fields : List (String × α)} {k : String} {a : α}
    (h : fields.lookup k = some a) : (k, a) ∈ fields := by
  obtain ⟨l₁, l₂, rfl, -⟩ := List.lookup_eq_some_iff.1 h
  exact List.mem_append_right _ List.mem_cons_self

theorem lookup_map {α β : Type} (g : α → β) (fields : List (String × α)) (k : String) :
    (fields.map fun f => (f.1, g f.2)).lookup k = (fields.lookup k).map g := by
  induction fields with
  | nil => rfl
  | cons f fields ih =>
    rw [List.map_cons, List.lookup_cons, List.lookup_cons, ih]
    cases k == f.1 <;> rfl

theorem lookup_perm {α : Type} {fields fields' : List (String × α)} (h : fields.Perm fields')
    (hkeys : (fields.map Prod.fst).Nodup) (k : String) : fields.lookup k = fields'.lookup k := by
  have hkeys' : (fields'.map Prod.fst).Nodup := (h.map Prod.fst).nodup_iff.1 hkeys
  cases hk : fields.lookup k with
  | some a => rw [lookup_of_mem hkeys' (h.subset (mem_of_lookup hk))]
  | none =>
    cases hk' : fields'.lookup k with
    | none => rfl
    | some a =>
      rw [lookup_of_mem hkeys (h.symm.subset (mem_of_lookup hk'))] at hk
      cases hk

namespace Message

/-! ## Sorting -/

section Sorting

variable {α β : Type}

def sortByKey (fields : List (String × α)) : List (String × α) :=
  fields.mergeSort fun f g => f.1 ≤ g.1

theorem sortByKey_perm (fields : List (String × α)) : (sortByKey fields).Perm fields :=
  List.mergeSort_perm _ _

theorem pairwise_sortByKey (fields : List (String × α)) :
    (sortByKey fields).Pairwise fun f g => f.1 ≤ g.1 := by
  have htrans : ∀ a b c : String × α, decide (a.1 ≤ b.1) = true → decide (b.1 ≤ c.1) = true →
      decide (a.1 ≤ c.1) = true := by
    intro a b c hab hbc
    rw [decide_eq_true_eq] at *
    exact String.le_trans hab hbc
  have htotal : ∀ a b : String × α, (decide (a.1 ≤ b.1) || decide (b.1 ≤ a.1)) = true := by
    intro a b
    rw [Bool.or_eq_true, decide_eq_true_eq, decide_eq_true_eq]
    exact String.le_total a.1 b.1
  exact (List.pairwise_mergeSort htrans htotal fields).imp fun hle => of_decide_eq_true hle

theorem sortByKey_map (g : α → β) (fields : List (String × α)) :
    sortByKey (fields.map fun f => (f.1, g f.2)) =
      (sortByKey fields).map fun f => (f.1, g f.2) := by
  rw [sortByKey, sortByKey, List.map_mergeSort]
  exact fun _ _ _ _ => rfl

theorem nodup_sortByKey {fields : List (String × α)} (h : (fields.map Prod.fst).Nodup) :
    ((sortByKey fields).map Prod.fst).Nodup :=
  ((sortByKey_perm fields).map Prod.fst).nodup_iff.2 h

theorem lookup_sortByKey {fields : List (String × α)} (h : (fields.map Prod.fst).Nodup)
    (k : String) : (sortByKey fields).lookup k = fields.lookup k :=
  lookup_perm (sortByKey_perm fields) (nodup_sortByKey h) k

end Sorting

/-! ## Messages in order -/

mutual

/-- Puts the fields in order at every depth and replaces the leaves. -/
def ordered (leaf : Message → Message) : Message → Message
  | .list items => .list (orderedItems leaf items)
  | .object fields => .object (sortByKey (orderedFields leaf fields))
  | m => leaf m

def orderedItems (leaf : Message → Message) : List Message → List Message
  | [] => []
  | m :: ms => ordered leaf m :: orderedItems leaf ms

def orderedFields (leaf : Message → Message) :
    List (String × Message) → List (String × Message)
  | [] => []
  | (k, m) :: fs => (k, ordered leaf m) :: orderedFields leaf fs

end

/-- The message with the fields of every object in the order of their keys. -/
def sorted : Message → Message := ordered id

variable {leaf : Message → Message}

theorem ordered_leaf {m : Message} (h : m.isLeaf = true) : m.ordered leaf = leaf m := by
  cases m with
  | list items => cases h
  | object fields => cases h
  | _ => simp only [ordered]

theorem ordered_list (items : List Message) :
    (Message.list items).ordered leaf = .list (items.map (ordered leaf)) := by
  have hitems : orderedItems leaf items = items.map (ordered leaf) := by
    induction items with
    | nil => rfl
    | cons m ms ih => rw [orderedItems, ih, List.map_cons]
  rw [ordered, hitems]

theorem ordered_object (fields : List (String × Message)) :
    (Message.object fields).ordered leaf =
      .object ((sortByKey fields).map fun f => (f.1, f.2.ordered leaf)) := by
  have hfields : orderedFields leaf fields = fields.map fun f => (f.1, f.2.ordered leaf) := by
    induction fields with
    | nil => rfl
    | cons f fs ih => rw [orderedFields, ih, List.map_cons]
  rw [ordered, hfields, sortByKey_map]

theorem sorted_leaf {m : Message} (h : m.isLeaf = true) : m.sorted = m := ordered_leaf h

theorem sorted_list (items : List Message) :
    (Message.list items).sorted = .list (items.map sorted) :=
  ordered_list items

/-- The fields of an object, themselves in order and with their messages in order. -/
def sortedFields (fields : List (String × Message)) : List (String × Message) :=
  (sortByKey fields).map fun f => (f.1, f.2.sorted)

theorem sorted_object (fields : List (String × Message)) :
    (Message.object fields).sorted = .object (sortedFields fields) :=
  ordered_object fields

/-- The text of a message does not hang on the order of its fields. -/
theorem writeOnto_ordered (spread : Spread)
    (hleaf : ∀ m level, m.isLeaf = true →
      writeOnto spread level (leaf m) = writeOnto spread level m)
    (m : Message) (level : Nat) :
    writeOnto spread level (m.ordered leaf) = writeOnto spread level m := by
  induction m generalizing level with
  | leaf m hm => rw [ordered_leaf hm, hleaf m level hm]
  | list items ih =>
    have hitems : (items.map (ordered leaf)).map (writeOnto spread (level + 1)) =
        items.map (writeOnto spread (level + 1)) := by
      rw [List.map_map]
      exact List.map_congr_left fun m hm => ih m hm (level + 1)
    rw [ordered_list, writeOnto_list, writeOnto_list, hitems]
  | object fields ih =>
    have hfields : ((sortByKey fields).map fun f => (f.1, f.2.ordered leaf)).map
          (fun f => (f.1, writeOnto spread (level + 1) f.2)) =
        (sortByKey fields).map fun f => (f.1, writeOnto spread (level + 1) f.2) := by
      rw [List.map_map]
      apply List.map_congr_left
      intro f hf
      have hmem : f ∈ fields := (sortByKey_perm fields).subset hf
      exact congrArg (Prod.mk f.1) (ih f hmem (level + 1))
    have hsorted : sortFields ((sortByKey fields).map fun f =>
          (f.1, writeOnto spread (level + 1) f.2)) =
        sortFields (fields.map fun f => (f.1, writeOnto spread (level + 1) f.2)) := by
      rw [sortFields_map _ (pairwise_sortByKey fields), ← sortByKey_map]
      rfl
    rw [ordered_object, writeOnto_object, writeOnto_object, hfields, hsorted]

/-! ## Finding fields -/

section Finding

variable {fields : List (String × Message)}

theorem lookup_sortedFields (h : (fields.map Prod.fst).Nodup) (k : String) :
    (sortedFields fields).lookup k = (fields.lookup k).map sorted := by
  rw [sortedFields, lookup_map, lookup_sortByKey h]

theorem soleKey?_eq_some_iff {k : String} :
    soleKey? fields = some k ↔ ∃ m, fields.filter (·.1 != sourceKey) = [(k, m)] := by
  rw [soleKey?]
  constructor
  · intro h
    split at h
    next j m hfilter =>
      cases h
      exact ⟨m, hfilter⟩
    next => cases h
  · rintro ⟨m, hfilter⟩
    rw [hfilter]

theorem exists_lookup_of_soleKey? {k : String} (h : soleKey? fields = some k) :
    ∃ m, fields.lookup k = some m := by
  obtain ⟨m, hfilter⟩ := soleKey?_eq_some_iff.1 h
  have hmem : (k, m) ∈ fields := (List.mem_filter.1 (hfilter ▸ List.mem_singleton_self _)).1
  rw [← Option.isSome_iff_exists, Option.isSome_iff_ne_none]
  intro hnone
  exact absurd rfl (bne_iff_ne.1 (List.lookup_eq_none_iff.1 hnone (k, m) hmem))

theorem soleKey?_sortedFields {k : String} (h : soleKey? fields = some k) :
    soleKey? (sortedFields fields) = some k := by
  obtain ⟨m, hfilter⟩ := soleKey?_eq_some_iff.1 h
  have hsort : (sortByKey fields).filter (·.1 != sourceKey) = [(k, m)] := by
    have hperm := (sortByKey_perm fields).filter (·.1 != sourceKey)
    rwa [hfilter, List.perm_singleton] at hperm
  refine soleKey?_eq_some_iff.2 ⟨m.sorted, ?_⟩
  rw [sortedFields, List.filter_map]
  exact congrArg (List.map _) hsort

theorem sizeOf_lt_of_mem {items : List Message} {m : Message} (h : m ∈ items) :
    sizeOf m < sizeOf (Message.list items) := by
  have := List.sizeOf_lt_of_mem h
  simp only [Message.list.sizeOf_spec]
  omega

theorem sizeOf_lt_of_lookup {k : String} {m : Message} (h : fields.lookup k = some m) :
    sizeOf m < sizeOf (Message.object fields) := by
  have := List.sizeOf_lt_of_mem (mem_of_lookup h)
  simp only [Message.object.sizeOf_spec, Prod.mk.sizeOf_spec] at *
  omega

theorem Every.of_lookup {P : Message → Prop} {k : String} {m : Message}
    (h : (Message.object fields).Every P) (hm : fields.lookup k = some m) : m.Every P :=
  (every_object.1 h).2 (k, m) (mem_of_lookup hm)

end Finding

/-- The function changes at most the order in which fields stand: each object becomes one where
the same keys hold the same messages, themselves changed in this way. -/
structure Reorders (g : Message → Message) : Prop where
  leaf : ∀ {m : Message}, m.isLeaf = true → g m = m
  list : ∀ items, g (.list items) = .list (items.map g)
  object : ∀ {fields : List (String × Message)}, (fields.map Prod.fst).Nodup →
    ∃ fields', g (.object fields) = .object fields' ∧
      (∀ k, fields'.lookup k = (fields.lookup k).map g) ∧
      ∀ k, soleKey? fields = some k → soleKey? fields' = some k

theorem reorders_id : Reorders id where
  leaf _ := rfl
  list items := by rw [List.map_id, id]
  object {fields} _ := ⟨fields, rfl, fun k => by rw [Option.map_id, id], fun _ h => h⟩

theorem reorders_sorted : Reorders sorted where
  leaf := sorted_leaf
  list := sorted_list
  object {fields} h := ⟨sortedFields fields, sorted_object fields, lookup_sortedFields h,
    fun _ => soleKey?_sortedFields⟩

/-- The fields are a payload under its key and perhaps a source context, before it or behind. -/
inductive Envelope (key : String) (payload : Message) :
    Option Message → List (String × Message) → Prop where
  | bare : Envelope key payload none [(key, payload)]
  | before (m : Message) : Envelope key payload (some m) [(sourceKey, m), (key, payload)]
  | behind (m : Message) : Envelope key payload (some m) [(key, payload), (sourceKey, m)]

namespace Envelope

variable {key : String} {payload : Message} {source : Option Message}
  {fields : List (String × Message)} (h : Envelope key payload source fields)
include h

theorem mem {f : String × Message} (hf : f ∈ fields) :
    f = (key, payload) ∨ ∃ m ∈ source, f = (sourceKey, m) := by
  cases h with
  | bare => exact Or.inl (List.mem_singleton.1 hf)
  | before m =>
    rcases List.mem_cons.1 hf with rfl | hf
    · exact Or.inr ⟨m, rfl, rfl⟩
    · exact Or.inl (List.mem_singleton.1 hf)
  | behind m =>
    rcases List.mem_cons.1 hf with rfl | hf
    · exact Or.inl rfl
    · exact Or.inr ⟨m, rfl, List.mem_singleton.1 hf⟩

theorem nodup (hkey : key ≠ sourceKey) : (fields.map Prod.fst).Nodup := by
  cases h <;> simp [hkey, hkey.symm]

theorem soleKey?_eq (hkey : key ≠ sourceKey) : soleKey? fields = some key := by
  cases h <;> simp [soleKey?, hkey]

theorem lookup_key (hkey : key ≠ sourceKey) : fields.lookup key = some payload := by
  have hne : (key == sourceKey) = false := beq_false_of_ne hkey
  cases h <;> simp [List.lookup_cons, hne]

theorem lookup_sourceKey (hkey : key ≠ sourceKey) : fields.lookup sourceKey = source := by
  have hne : (sourceKey == key) = false := beq_false_of_ne hkey.symm
  cases h <;> simp [List.lookup_cons, hne]

/-- Whatever their order, the payload is found under its key, and the source context is found. -/
theorem reordered {g : Message → Message} (hg : Reorders g) (hkey : key ≠ sourceKey) :
    ∃ fields', g (.object fields) = .object fields' ∧ soleKey? fields' = some key ∧
      fields'.lookup key = some (g payload) ∧ fields'.lookup sourceKey = source.map g := by
  obtain ⟨fields', hfields, hlookup, hsole⟩ := hg.object (h.nodup hkey)
  refine ⟨fields', hfields, hsole key (h.soleKey?_eq hkey), ?_, ?_⟩
  · rw [hlookup, h.lookup_key hkey, Option.map_some]
  · rw [hlookup, h.lookup_sourceKey hkey]

end Envelope

end Message

end Formulary
