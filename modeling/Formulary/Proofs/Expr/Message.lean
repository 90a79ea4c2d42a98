import Formulary.Proofs.Expr.Basic
import Formulary.Proofs.Message.Load
import Formulary.Proofs.Number.Rounding

/-!
# Expressions read back from messages

The message of an expression is read as that expression, whatever the order of the fields in it.
Byte strings stand in it under their kind only, and the texts of strings, symbols and source
contexts under other keys, so that the message passes through JSON text unchanged.
-/
namespace Formulary

open Message (Envelope Reorders Loadable sourceKey soleKey? sourceOf)

/-- A source context that is absent or a text. -/
def Source.Textual (s : Source) : Prop := ∀ m ∈ s, m.isString = true

theorem Source.textual_none : Source.Textual none := by
  intro m hm
  cases hm

theorem Source.textual_cases {s : Source} (h : Source.Textual s) :
    s = none ∨ ∃ t, s = some (.str t) := by
  cases s with
  | none => exact Or.inl rfl
  | some m =>
    have hm := h m rfl
    cases m with
    | str t => exact Or.inr ⟨t, rfl⟩
    | _ => cases hm

/-! ## Reading -/

variable {g : Message → Message}

theorem Symbol.ofMessage_toMessage (hg : Reorders g) (s : Symbol) :
    Symbol.ofMessage (g s.toMessage) = .ok s := by
  have hstr : ∀ t, g (.str t) = .str t := fun t => hg.leaf rfl
  obtain ⟨fields, hfields, hlookup, -⟩ := hg.object s.distinctKeys_toMessage
  obtain ⟨name, space⟩ := s
  have hname := hlookup "name"
  have hspace := hlookup "namespace"
  rw [toMessage, hfields, ofMessage, hname, hspace]
  by_cases h : space = ""
  · subst h
    simp [hstr, List.lookup_cons]
  · simp [hstr, h, List.lookup_cons]

theorem Kind.ofName?_name (k : Kind) : Kind.ofName? k.name = some k := by
  cases k with
  | int k => cases k <;> rfl
  | _ => rfl

theorem Kind.name_inj {k k' : Kind} : k.name = k'.name ↔ k = k' := by
  constructor
  · intro h
    have hk := k.ofName?_name
    rw [h, k'.ofName?_name] at hk
    exact (Option.some.inj hk).symm
  · exact congrArg name

theorem Kind.name_ne_sourceKey (k : Kind) : k.name ≠ sourceKey := by
  cases k with
  | int k => cases k <;> decide
  | _ => decide

theorem Atom.number_double (k : Kind) (x : Double) : Atom.number k (.double x) = .ok x := rfl

theorem Atom.ofPayload_payload {a : Atom} (hleaf : a.payload.isLeaf = true) (h : a.WellFormed) :
    Atom.ofPayload a.kind a.payload = .ok a := by
  cases a with
  | symbol s => cases hleaf
  | int k n =>
    have hn : k.contains n = true := h
    simp only [payload, kind, ofPayload, if_pos hn]
  | single x =>
    rw [payload, kind, ofPayload, number_double, Except.map,
      Binary.convert_convert FloatFormat.single_within_double]
  | _ => rfl

namespace Expr

variable {kind : Kind} {source : Source} {fields : List (String × Message)} {m : Message}

theorem ofField_of_lookup (h : fields.lookup kind.name = some m) :
    ofField kind source fields = ofPayload kind source m :=
  search_of_lookup (ofField kind source) (ofPayload kind source) (fun _ _ _ => by rw [ofField]) h

theorem ofElements_of_lookup (h : fields.lookup "elements" = some m) :
    ofElements fields = ofItems m :=
  search_of_lookup ofElements ofItems (fun _ _ _ => by rw [ofElements]) h

theorem ofElements_of_none (h : fields.lookup "elements" = none) : ofElements fields = .ok [] := by
  rw [search_of_none ofElements ofItems (fun _ _ _ => by rw [ofElements]) h, ofElements]

theorem exists_envelope (kind : Kind) (payload : Message) (source : Source) :
    ∃ fields, envelope kind.name payload source true = .object fields ∧
      Envelope kind.name payload source fields := by
  cases source with
  | none => exact ⟨_, rfl, .bare⟩
  | some m => exact ⟨_, rfl, .behind m⟩

/-- Reading goes on with the payload, the source context being known. -/
theorem ofMessage_envelope (hg : Reorders g) (kind : Kind) (payload : Message)
    (hs : Source.Textual source) :
    ofMessage (g (envelope kind.name payload source true)) =
      ofPayload kind source (g payload) := by
  obtain ⟨fields, hfields, henvelope⟩ := exists_envelope kind payload source
  obtain ⟨fields', hfields', hsole, hpayload, hcontext⟩ :=
    henvelope.reordered hg kind.name_ne_sourceKey
  have hkind : soleKind? fields' = some kind := by
    rw [soleKind?, hsole, Option.bind_some, kind.ofName?_name]
  have hsource : sourceOf fields' = source := by
    rw [sourceOf, hcontext]
    obtain rfl | ⟨t, rfl⟩ := Source.textual_cases hs
    · rfl
    · rw [Option.map_some, hg.leaf rfl]
  simp only [hfields, hfields', ofMessage, hkind, hsource, ofField_of_lookup hpayload]

theorem ofPayload_leaf (h : m.isLeaf = true) :
    ofPayload kind source m = (Atom.ofPayload kind m).map (.atom source) := by
  cases m with
  | object fields => cases h
  | _ => simp [ofPayload]

theorem ofPayload_atom (hg : Reorders g) {a : Atom} (h : a.WellFormed) :
    ofPayload a.kind source (g a.payload) = .ok (.atom source a) := by
  by_cases hleaf : a.payload.isLeaf = true
  · rw [hg.leaf hleaf, ofPayload_leaf hleaf, Atom.ofPayload_payload hleaf h]
    rfl
  · cases a with
    | symbol s =>
      have hs := Symbol.ofMessage_toMessage hg s
      obtain ⟨fields, hfields, -⟩ := hg.object s.distinctKeys_toMessage
      rw [Symbol.toMessage, hfields] at hs
      simp only [Atom.payload, Atom.kind, Symbol.toMessage, hfields, ofPayload, Atom.ofPayload, hs]
      rfl
    | _ => exact absurd rfl hleaf

theorem ofMessages_map {h : Expr → Message} {es : List Expr}
    (hes : ∀ e ∈ es, ofMessage (h e) = .ok e) (index : Nat) :
    ofMessages index (es.map h) = .ok es := by
  induction es generalizing index with
  | nil => rfl
  | cons e es ih =>
    rw [List.forall_mem_cons] at hes
    rw [List.map_cons, ofMessages, hes.1, ih hes.2]
    rfl

/-- The message of an expression is read as that expression, in whatever order its fields are. -/
theorem ofMessage_toMessage (hg : Reorders g) {e : Expr} (hw : e.WellFormed)
    (hs : e.Sources Source.Textual) : ofMessage (g (e.toMessage true)) = .ok e := by
  rw [wellFormed_iff] at hw
  induction e with
  | atom source a =>
    rw [leaves_atom] at hw
    rw [sources_atom] at hs
    rw [toMessage, ofMessage_envelope hg a.kind a.payload hs, ofPayload_atom hg hw]
  | list source es ih =>
    rw [leaves_list] at hw
    rw [sources_list] at hs
    have hkeys : ([("elements", Message.list (es.map (toMessage true)))].map Prod.fst).Nodup :=
      List.nodup_singleton _
    obtain ⟨fields, hfields, hlookup, -⟩ := hg.object hkeys
    have helements : fields.lookup "elements" =
        some (.list (es.map fun e => g (e.toMessage true))) := by
      rw [hlookup, List.lookup_cons_self, Option.map_some, hg.list, List.map_map]
      rfl
    have hes : ∀ e ∈ es, ofMessage (g (e.toMessage true)) = .ok e :=
      fun e he => ih e he (hw e he) (hs.2 e he)
    rw [toMessage, ofMessage_envelope hg .list _ hs.1, toMessages_eq, hfields, ofPayload,
      if_pos rfl, ofElements_of_lookup helements, ofItems, ofMessages_map hes]
    rfl

end Expr

/-! ## Passing through JSON text -/

theorem Symbol.loadable_toMessage (s : Symbol) : s.toMessage.Every (Loadable .standard) := by
  have hstr : ∀ t, (Message.str t).Every (Loadable .standard) :=
    fun t => Message.loadable_leaf rfl trivial
  refine Message.loadable_object s.distinctKeys_toMessage ?_ ?_
  · by_cases h : s.space = "" <;> simp [h, Message.isBytes]
  · by_cases h : s.space = "" <;> simp [h, hstr]

theorem Atom.kind_of_isBytes_payload {a : Atom} (h : a.payload.isBytes = true) :
    a.kind = .bytes := by
  cases a with
  | bytes bs => rfl
  | _ => cases h

theorem Atom.isString_payload_of_kind {a : Atom} (h : a.kind = .bytes) :
    a.payload.isString = false := by
  cases a with
  | bytes bs => rfl
  | _ => cases h

theorem Atom.loadable_payload {a : Atom} (h : a.WellFormed) :
    a.payload.Every (Loadable .standard) := by
  cases a with
  | symbol s => exact s.loadable_toMessage
  | int kind n => exact Message.loadable_leaf rfl (DigitLimit.admitsInt_of_contains h)
  | _ => exact Message.loadable_leaf rfl trivial

namespace Expr

variable {source : Source}

theorem loadable_envelope (hs : Source.Textual source) {kind : Kind} {payload : Message}
    (hbytes : payload.isBytes = true → kind = .bytes)
    (hstring : kind = .bytes → payload.isString = false)
    (hpayload : payload.Every (Loadable .standard)) :
    (envelope kind.name payload source true).Every (Loadable .standard) := by
  obtain ⟨fields, hfields, henvelope⟩ := exists_envelope kind payload source
  rw [hfields]
  refine Message.loadable_envelope henvelope kind.name_ne_sourceKey ?_ ?_ hpayload ?_
  · intro h
    rw [hbytes h]
    rfl
  · intro h
    apply hstring
    exact Kind.name_inj.1 h
  · intro m hm
    obtain rfl | ⟨t, rfl⟩ := Source.textual_cases hs
    · cases hm
    · cases hm
      exact ⟨rfl, Message.loadable_leaf rfl trivial⟩

theorem toMessage_eq_object (e : Expr) : ∃ fields, e.toMessage true = .object fields := by
  cases e with
  | atom source a => exact ⟨_, rfl⟩
  | list source es => exact ⟨_, rfl⟩

theorem isBytes_toMessage (e : Expr) : (e.toMessage true).isBytes = false := by
  obtain ⟨fields, hfields⟩ := e.toMessage_eq_object
  rw [hfields]
  rfl

theorem loadable_toMessage {e : Expr} (hw : e.WellFormed) (hs : e.Sources Source.Textual) :
    (e.toMessage true).Every (Loadable .standard) := by
  rw [wellFormed_iff] at hw
  induction e with
  | atom source a =>
    rw [sources_atom] at hs
    rw [toMessage]
    exact loadable_envelope hs Atom.kind_of_isBytes_payload Atom.isString_payload_of_kind
      (Atom.loadable_payload (leaves_atom.1 hw))
  | list source es ih =>
    rw [leaves_list] at hw
    rw [sources_list] at hs
    rw [toMessage, toMessages_eq]
    refine loadable_envelope hs.1 (fun h => by cases h) (fun h => by cases h) ?_
    have hlist : (Message.list (es.map (toMessage true))).Every (Loadable .standard) :=
      Message.loadable_list (List.forall_mem_map.2 fun e _ => e.isBytes_toMessage)
        (List.forall_mem_map.2 fun e he => ih e he (hw e he) (hs.2 e he))
    refine Message.loadable_object (List.nodup_singleton _) ?_ (List.forall_mem_singleton.2 hlist)
    exact List.forall_mem_singleton.2 ⟨by simp, rfl⟩

/-- An expression comes back from the JSON text of its message, with the source contexts of all
its nodes. -/
theorem load_write_toMessage (e : Expr) (hw : e.WellFormed) (hs : e.Sources Source.Textual)
    (spread : Message.Spread) : load ((e.toMessage true).write spread) = .ok e := by
  have hload := loadable_toMessage hw hs
  have hread := ofMessage_toMessage Message.reorders_sorted hw hs
  obtain ⟨fields, hfields⟩ := e.toMessage_eq_object
  rw [hfields] at hload hread ⊢
  rw [load, Message.load, Message.load_write spread hload]
  exact hread

theorem load_write_toMessage_nested :
    load ((toMessage true (.list (some (.str "a.f:2"))
      [.atom (some (.str "")) (.symbol ⟨"bytes", "\x22\\"⟩), .atom none (.bytes [0, 255]),
        .list none [.atom none (.double (.zero .double true)), .atom none (.int .uint64 7),
          .atom none (.single .nan), .atom none (.string "𝔸")]])).write (some 2)) =
    .ok (.list (some (.str "a.f:2"))
      [.atom (some (.str "")) (.symbol ⟨"bytes", "\x22\\"⟩), .atom none (.bytes [0, 255]),
        .list none [.atom none (.double (.zero .double true)), .atom none (.int .uint64 7),
          .atom none (.single .nan), .atom none (.string "𝔸")]]) := by
  refine load_write_toMessage _ ?_ ?_ (some 2)
  · simp only [WellFormed, WellFormedAll, Atom.WellFormed]
    decide
  · simp [Source.Textual, Message.isString]

end Expr

end Formulary
