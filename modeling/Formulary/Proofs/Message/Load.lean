import Formulary.Proofs.Message.Order
import Formulary.Proofs.Text.Base64

/-!
# Loading what was written

A document holds byte strings as text, and loading makes byte strings again of the texts under the
key `bytes`. So a message in which byte strings stand under that key, and no strings do, is loaded
from its text as it was, with its fields in order.
-/
namespace Formulary.Message

/-! ## Documents -/

def documentLeaf : Message → Message
  | .bytes bs => .str (String.ofList (Text.Base64.encode bs))
  | m => m

/-- The message as a document holds it. -/
def document : Message → Message := ordered documentLeaf

theorem document_leaf {m : Message} (h : m.isLeaf = true) : m.document = documentLeaf m :=
  ordered_leaf h

theorem document_list (items : List Message) :
    (Message.list items).document = .list (items.map document) :=
  ordered_list items

theorem document_object (fields : List (String × Message)) :
    (Message.object fields).document =
      .object ((sortByKey fields).map fun f => (f.1, f.2.document)) :=
  ordered_object fields

theorem writeOnto_document (spread : Spread) (level : Nat) (m : Message) :
    writeOnto spread level m.document = writeOnto spread level m := by
  refine writeOnto_ordered spread (fun m level hm => ?_) m level
  cases m with
  | bytes bs => simp only [documentLeaf, writeOnto, writeLeaf, String.toList_ofList]
  | _ => rfl

variable {limit : DigitLimit}

theorem canonical_documentLeaf {m : Message} (h : m.isLeaf = true) (hm : m.Admitted limit) :
    (documentLeaf m).Every (Canonical limit) := by
  cases m with
  | list items => cases h
  | object fields => cases h
  | int n => exact (every_leaf rfl).2 hm
  | _ => exact (every_leaf rfl).2 trivial

theorem canonical_document {m : Message} (h : m.Every DistinctKeys)
    (hadmitted : m.Every (Admitted limit)) : m.document.Every (Canonical limit) := by
  induction m with
  | leaf m hm =>
    rw [document_leaf hm]
    exact canonical_documentLeaf hm ((every_leaf hm).1 hadmitted)
  | list items ih =>
    rw [every_list] at h hadmitted
    rw [document_list, every_list, List.forall_mem_map]
    exact ⟨trivial, fun m hm => ih m hm (h.2 m hm) (hadmitted.2 m hm)⟩
  | object fields ih =>
    rw [every_object] at h hadmitted
    rw [document_object, every_object, List.forall_mem_map]
    refine ⟨⟨?_, ?_⟩, fun f hf => ?_⟩
    · exact List.pairwise_map.2 (pairwise_sortByKey fields)
    · rw [List.map_map]
      exact nodup_sortByKey h.1
    · have hmem : f ∈ fields := (sortByKey_perm fields).subset hf
      exact ih f hmem (h.2 f hmem) (hadmitted.2 f hmem)

theorem read_write (spread : Spread) {m : Message} (h : m.Every DistinctKeys)
    (hadmitted : m.Every (Admitted limit)) {gap : List Char} (hgap : IsGap gap) :
    read limit ((m.write spread).toList ++ gap) = .ok m.document := by
  rw [write, String.toList_ofList, ← writeOnto_document]
  exact read_writeOnto spread (canonical_document h hadmitted) hgap

/-! ## Byte strings -/

def isBytes : Message → Bool
  | .bytes _ => true
  | _ => false

def isString : Message → Bool
  | .str _ => true
  | _ => false

/-- Byte strings stand under the key `bytes` only, and no strings do. -/
def Keyed : Message → Prop
  | .list items => ∀ m ∈ items, m.isBytes = false
  | .object fields =>
    ∀ f ∈ fields, (f.2.isBytes = true → f.1 = "bytes") ∧ (f.1 = "bytes" → f.2.isString = false)
  | _ => True

theorem isString_document {m : Message} (hb : m.isBytes = false) :
    m.document.isString = m.isString := by
  cases m with
  | list items => rw [document_list]; rfl
  | object fields => rw [document_object]; rfl
  | bytes bs => cases hb
  | _ => rw [document_leaf rfl]; rfl

theorem decodeBytesItems_map {items : List Message} {g h : Message → Message}
    (hitems : ∀ m ∈ items, (g m).decodeBytes = .ok (h m)) :
    decodeBytesItems (items.map g) = .ok (items.map h) := by
  induction items with
  | nil => rfl
  | cons m ms ih =>
    rw [List.forall_mem_cons] at hitems
    rw [List.map_cons, decodeBytesItems, hitems.1, ih hitems.2]
    rfl

/-- A field that is not a text under the key `bytes` is decoded as a message. -/
theorem decodeBytesFields_cons {k : String} {m m' : Message} {fs fs' : List (String × Message)}
    (h : k = "bytes" → m.isString = false) (hm : m.decodeBytes = .ok m')
    (hfs : decodeBytesFields fs = .ok fs') :
    decodeBytesFields ((k, m) :: fs) = .ok ((k, m') :: fs') := by
  rw [decodeBytesFields, hm, hfs]
  · rfl
  · rintro s hk rfl
    cases h (beq_iff_eq.1 hk)

theorem decodeBytesFields_cons_bytes (bs : List UInt8) {fs fs' : List (String × Message)}
    (hfs : decodeBytesFields fs = .ok fs') :
    decodeBytesFields (("bytes", documentLeaf (.bytes bs)) :: fs) =
      .ok (("bytes", .bytes bs) :: fs') := by
  rw [documentLeaf, decodeBytesFields.eq_2 _ _ _ (beq_self_eq_true _), String.toList_ofList,
    Text.Base64.decode?_encode, hfs]
  rfl

/-- The fields of an object, given that each of them is decoded. -/
theorem decodeBytesFields_document {fs : List (String × Message)} (hkeyed : (object fs).Keyed)
    (hfs : ∀ f ∈ fs, f.2.isBytes = false → f.2.document.decodeBytes = .ok f.2.sorted) :
    decodeBytesFields (fs.map fun f => (f.1, f.2.document)) =
      .ok (fs.map fun f => (f.1, f.2.sorted)) := by
  induction fs with
  | nil => rfl
  | cons f fs ih =>
    obtain ⟨hf, hrest⟩ := List.forall_mem_cons.1 hkeyed
    rw [List.forall_mem_cons] at hfs
    rw [List.map_cons, List.map_cons]
    cases hb : f.2.isBytes with
    | false =>
      refine decodeBytesFields_cons ?_ (hfs.1 hb) (ih hrest hfs.2)
      rw [isString_document hb]
      exact hf.2
    | true =>
      obtain ⟨k, m⟩ := f
      cases m with
      | bytes bs =>
        obtain rfl : k = "bytes" := hf.1 hb
        exact decodeBytesFields_cons_bytes bs (ih hrest hfs.2)
      | _ => cases hb

theorem decodeBytes_document {m : Message} (h : m.Every Keyed) (hb : m.isBytes = false) :
    m.document.decodeBytes = .ok m.sorted := by
  induction m with
  | leaf m hm =>
    rw [document_leaf hm, sorted_leaf hm]
    cases m with
    | bytes bs => cases hb
    | list items => cases hm
    | object fields => cases hm
    | _ => rfl
  | list items ih =>
    rw [every_list] at h
    rw [document_list, sorted_list, decodeBytes,
      decodeBytesItems_map fun m hm => ih m hm (h.2 m hm) (h.1 m hm)]
    rfl
  | object fields ih =>
    rw [every_object] at h
    -- the fields are decoded in the order in which the document holds them
    have hmem : ∀ f ∈ sortByKey fields, f ∈ fields := fun f hf => (sortByKey_perm fields).subset hf
    have hdecode := decodeBytesFields_document (fun f hf => h.1 f (hmem f hf))
      fun f hf => ih f (hmem f hf) (h.2 f (hmem f hf))
    rw [document_object, sorted_object, decodeBytes, hdecode]
    rfl

/-- The conditions under which a message is loaded as it was. -/
structure Loadable (limit : DigitLimit) (m : Message) : Prop where
  distinctKeys : m.DistinctKeys
  keyed : m.Keyed
  admitted : m.Admitted limit

theorem loadable_leaf {m : Message} (h : m.isLeaf = true) (hadmitted : m.Admitted limit) :
    m.Every (Loadable limit) := by
  rw [every_leaf h]
  cases m with
  | list items => cases h
  | object fields => cases h
  | _ => exact ⟨trivial, trivial, hadmitted⟩

theorem loadable_list {items : List Message} (h : ∀ m ∈ items, m.isBytes = false)
    (hitems : ∀ m ∈ items, m.Every (Loadable limit)) :
    (Message.list items).Every (Loadable limit) :=
  every_list.2 ⟨⟨trivial, h, trivial⟩, hitems⟩

/-- An object that neither has the key `bytes` nor holds a byte string itself. -/
theorem loadable_object {fields : List (String × Message)} (hkeys : (fields.map Prod.fst).Nodup)
    (h : ∀ f ∈ fields, f.1 ≠ "bytes" ∧ f.2.isBytes = false)
    (hfields : ∀ f ∈ fields, f.2.Every (Loadable limit)) :
    (Message.object fields).Every (Loadable limit) := by
  rw [every_object]
  refine ⟨⟨hkeys, fun f hf => ⟨fun hb => ?_, fun hk => absurd hk (h f hf).1⟩, trivial⟩, hfields⟩
  rw [(h f hf).2] at hb
  cases hb

theorem loadable_envelope {key : String} {payload : Message} {source : Option Message}
    {fields : List (String × Message)} (h : Envelope key payload source fields)
    (hkey : key ≠ sourceKey) (hbytes : payload.isBytes = true → key = "bytes")
    (hstring : key = "bytes" → payload.isString = false) (hpayload : payload.Every (Loadable limit))
    (hsource : ∀ m ∈ source, m.isBytes = false ∧ m.Every (Loadable limit)) :
    (Message.object fields).Every (Loadable limit) := by
  have hsourceKey : sourceKey ≠ "bytes" := by decide
  rw [every_object]
  refine ⟨⟨h.nodup hkey, fun f hf => ?_, trivial⟩, fun f hf => ?_⟩
  · rcases h.mem hf with rfl | ⟨m, hm, rfl⟩
    · exact ⟨hbytes, hstring⟩
    · refine ⟨fun hb => ?_, fun hk => absurd hk hsourceKey⟩
      rw [(hsource m hm).1] at hb
      cases hb
  · rcases h.mem hf with rfl | ⟨m, hm, rfl⟩
    · exact hpayload
    · exact (hsource m hm).2

/-- What was written is loaded again, with its fields in order; white space may follow it. -/
theorem load_write_gap (spread : Spread) {fields : List (String × Message)}
    (h : (Message.object fields).Every (Loadable limit)) {gap : String} (hgap : IsGap gap.toList) :
    loadWithin limit ((Message.object fields).write spread ++ gap) =
      .ok (Message.object fields).sorted := by
  have hdecode := decodeBytes_document (h.imp fun _ => Loadable.keyed) rfl
  rw [document_object] at hdecode
  rw [loadWithin, String.toList_append, read_write spread (h.imp fun _ => Loadable.distinctKeys)
    (h.imp fun _ => Loadable.admitted) hgap, document_object]
  exact hdecode

theorem load_write (spread : Spread) {fields : List (String × Message)}
    (h : (Message.object fields).Every (Loadable limit)) :
    loadWithin limit ((Message.object fields).write spread) =
      .ok (Message.object fields).sorted := by
  have hempty : IsGap "".toList := isGap_nil
  have hload := load_write_gap spread h hempty
  rwa [String.append_empty] at hload

end Formulary.Message
