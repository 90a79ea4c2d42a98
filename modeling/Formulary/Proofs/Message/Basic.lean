import Formulary.Message.Basic
import Formulary.Proofs.Outcome
import Mathlib.Data.List.Basic
import Mathlib.Data.List.Nodup

/-!
# Messages and their parts

An induction principle for messages, properties that hold of a message and of all its parts, and
the fields of objects whose keys are distinct. A message without `nan` equals itself.
-/
namespace Formulary

theorem lookup_of_mem {α : Type} {fields : List (String × α)} (h : (fields.map Prod.fst).Nodup)
    {k : String} {a : α} (hmem : (k, a) ∈ fields) : fields.lookup k = some a := by
  induction fields with
  | nil => cases hmem
  | cons f fields ih =>
    obtain ⟨j, b⟩ := f
    rw [List.map_cons, List.nodup_cons] at h
    rcases List.mem_cons.1 hmem with he | hrest
    · cases he
      exact List.lookup_cons_self
    · have hkj : (k == j) = false := by
        rw [beq_eq_false_iff_ne]
        rintro rfl
        exact h.1 (List.mem_map.2 ⟨(k, a), hrest, rfl⟩)
      rw [List.lookup_cons, hkj]
      exact ih h.2 hrest

/-- A search through fields for a key decodes what is found under the key. -/
theorem search_of_lookup {α β : Type} {key : String} (search : List (String × α) → β)
    (decode : α → β)
    (hcons : ∀ k a fields,
      search ((k, a) :: fields) = if k = key then decode a else search fields)
    {fields : List (String × α)} {a : α} (h : fields.lookup key = some a) :
    search fields = decode a := by
  induction fields with
  | nil => cases h
  | cons f fields ih =>
    obtain ⟨k, b⟩ := f
    rw [List.lookup_cons] at h
    rw [hcons]
    by_cases hk : k = key
    · rw [hk, beq_self_eq_true] at h
      cases h
      rw [if_pos hk]
    · rw [beq_false_of_ne (Ne.symm hk)] at h
      rw [if_neg hk, ih h]

/-- Where the key is missing, the search goes through to its end. -/
theorem search_of_none {α β : Type} {key : String} (search : List (String × α) → β)
    (decode : α → β)
    (hcons : ∀ k a fields,
      search ((k, a) :: fields) = if k = key then decode a else search fields)
    {fields : List (String × α)} (h : fields.lookup key = none) : search fields = search [] := by
  induction fields with
  | nil => rfl
  | cons f fields ih =>
    obtain ⟨k, b⟩ := f
    rw [List.lookup_cons] at h
    rw [hcons]
    by_cases hk : k = key
    · rw [hk, beq_self_eq_true] at h
      cases h
    · rw [beq_false_of_ne (Ne.symm hk)] at h
      rw [if_neg hk, ih h]

namespace Message

/-- The message has no parts. -/
def isLeaf : Message → Bool
  | .list _ => false
  | .object _ => false
  | _ => true

@[elab_as_elim, induction_eliminator]
theorem induction {motive : Message → Prop} (leaf : ∀ m, m.isLeaf = true → motive m)
    (list : ∀ items, (∀ m ∈ items, motive m) → motive (.list items))
    (object : ∀ fields, (∀ f ∈ fields, motive f.2) → motive (.object fields)) (m : Message) :
    motive m :=
  @Message.rec motive (fun items => ∀ m ∈ items, motive m)
    (fun fields => ∀ f ∈ fields, motive f.2) (fun f => motive f.2)
    (leaf _ rfl) (fun _ => leaf _ rfl) (fun _ => leaf _ rfl) (fun _ => leaf _ rfl)
    (fun _ => leaf _ rfl) (fun _ => leaf _ rfl) list object
    (fun _ h => absurd h List.not_mem_nil)
    (fun _ _ hm hms => List.forall_mem_cons.2 ⟨hm, hms⟩)
    (fun _ h => absurd h List.not_mem_nil)
    (fun _ _ hf hfs => List.forall_mem_cons.2 ⟨hf, hfs⟩) (fun _ _ hm => hm) m

/-! ## Properties of all parts -/

mutual

/-- The message and all its parts have the property. -/
def Every (P : Message → Prop) : Message → Prop
  | .list items => P (.list items) ∧ EveryItem P items
  | .object fields => P (.object fields) ∧ EveryField P fields
  | m => P m

def EveryItem (P : Message → Prop) : List Message → Prop
  | [] => True
  | m :: ms => Every P m ∧ EveryItem P ms

def EveryField (P : Message → Prop) : List (String × Message) → Prop
  | [] => True
  | (_, m) :: fs => Every P m ∧ EveryField P fs

end

variable {P : Message → Prop}

theorem every_leaf {m : Message} (h : m.isLeaf = true) : m.Every P ↔ P m := by
  cases m with
  | list items => cases h
  | object fields => cases h
  | _ => simp only [Every]

theorem every_list {items : List Message} :
    (Message.list items).Every P ↔ P (.list items) ∧ ∀ m ∈ items, m.Every P := by
  have hitems : EveryItem P items ↔ ∀ m ∈ items, m.Every P := by
    induction items with
    | nil => simp [EveryItem]
    | cons m ms ih => rw [EveryItem, ih, List.forall_mem_cons]
  rw [Every, hitems]

theorem every_object {fields : List (String × Message)} :
    (Message.object fields).Every P ↔ P (.object fields) ∧ ∀ f ∈ fields, f.2.Every P := by
  have hfields : EveryField P fields ↔ ∀ f ∈ fields, f.2.Every P := by
    induction fields with
    | nil => simp [EveryField]
    | cons f fs ih => rw [EveryField, ih, List.forall_mem_cons]
  rw [Every, hfields]

theorem Every.imp {Q : Message → Prop} (h : ∀ m, P m → Q m) {m : Message} (hm : m.Every P) :
    m.Every Q := by
  induction m with
  | leaf m hleaf => exact (every_leaf hleaf).2 (h m ((every_leaf hleaf).1 hm))
  | list items ih =>
    rw [every_list] at hm ⊢
    exact ⟨h _ hm.1, fun m hmem => ih m hmem (hm.2 m hmem)⟩
  | object fields ih =>
    rw [every_object] at hm ⊢
    exact ⟨h _ hm.1, fun f hmem => ih f hmem (hm.2 f hmem)⟩

/-- The message keeps the limit of digits, if it is an integer. -/
def Admitted (limit : DigitLimit) : Message → Prop
  | .int n => limit.admitsInt n = true
  | _ => True

theorem within_iff {limit : DigitLimit} {m : Message} :
    m.within limit = true ↔ m.Every (Admitted limit) := by
  induction m with
  | leaf m hleaf =>
    rw [every_leaf hleaf]
    cases m with
    | list items => cases hleaf
    | object fields => cases hleaf
    | _ => simp [within, Admitted]
  | list items ih =>
    have hitems : withinItems limit items = true ↔ ∀ m ∈ items, m.within limit = true := by
      clear ih
      induction items with
      | nil => simp [withinItems]
      | cons m ms ih => rw [withinItems, Bool.and_eq_true, ih, List.forall_mem_cons]
    rw [within, hitems, every_list]
    exact ⟨fun h => ⟨trivial, fun m hm => (ih m hm).1 (h m hm)⟩,
      fun h m hm => (ih m hm).2 (h.2 m hm)⟩
  | object fields ih =>
    have hfields : withinFields limit fields = true ↔ ∀ f ∈ fields, f.2.within limit = true := by
      clear ih
      induction fields with
      | nil => simp [withinFields]
      | cons f fs ih => rw [withinFields, Bool.and_eq_true, ih, List.forall_mem_cons]
    rw [within, hfields, every_object]
    exact ⟨fun h => ⟨trivial, fun f hf => (ih f hf).1 (h f hf)⟩,
      fun h f hf => (ih f hf).2 (h.2 f hf)⟩

/-- No key of an object occurs twice. -/
def DistinctKeys : Message → Prop
  | .object fields => (fields.map Prod.fst).Nodup
  | _ => True

/-- The message is a number or something else that equals itself. -/
def NotNan : Message → Prop
  | .double x => x ≠ .nan
  | _ => True

/-! ## Equality -/

theorem sameNumber_self {f : FloatFormat} {x : Binary f} (h : x ≠ .nan) :
    x.sameNumber x = true := by
  cases x with
  | nan => exact absurd rfl h
  | infinity s => simp [Binary.sameNumber]
  | finite s r => simp [Binary.sameNumber]

theorem same_leaf {m : Message} (h : m.isLeaf = true) (hn : m.NotNan) : m.same m = true := by
  cases m with
  | list items => cases h
  | object fields => cases h
  | double x => simpa [same, sameLeaf] using sameNumber_self hn
  | _ => simp [same, sameLeaf, integer?]

theorem sameItems_self {items : List Message} (h : ∀ m ∈ items, m.same m = true) :
    sameItems items items = true := by
  induction items with
  | nil => rfl
  | cons m ms ih =>
    rw [List.forall_mem_cons] at h
    rw [sameItems, h.1, ih h.2, Bool.and_self]

theorem sameFields_of_lookup {fields all : List (String × Message)}
    (hall : ∀ f ∈ fields, all.lookup f.1 = some f.2) (h : ∀ f ∈ fields, f.2.same f.2 = true) :
    sameFields fields all = true := by
  induction fields with
  | nil => rfl
  | cons f fs ih =>
    rw [List.forall_mem_cons] at hall h
    rw [sameFields, hall.1, Option.any_some, h.1, ih hall.2 h.2, Bool.and_self]

/-- A message without `nan` and without repeated keys equals itself. -/
theorem same_self {m : Message} (hn : m.Every NotNan) (hk : m.Every DistinctKeys) :
    m.same m = true := by
  induction m with
  | leaf m hm => exact same_leaf hm ((every_leaf hm).1 hn)
  | list items ih =>
    rw [every_list] at hn hk
    rw [same]
    exact sameItems_self fun m hm => ih m hm (hn.2 m hm) (hk.2 m hm)
  | object fields ih =>
    rw [every_object] at hn hk
    rw [same, beq_self_eq_true, Bool.true_and]
    refine sameFields_of_lookup ?_ fun f hf => ih f hf (hn.2 f hf) (hk.2 f hf)
    exact fun f hf => lookup_of_mem hk.1 hf

end Message

end Formulary
