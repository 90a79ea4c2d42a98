import Formulary.Proofs.Expr.Message
import Formulary.Proofs.Program.Basic

/-!
# Programs read back from messages

The message of a program is read as that program, whatever the order of the fields in it: the
nodes keep their source contexts, and the constants hold their expressions without any. The
message without source contexts is that of the program that has none.
-/
namespace Formulary.Node

open Message (Envelope Reorders Loadable sourceKey soleKey?)

/-! ## Messages -/

/-- The source context of a node stands in an object of its own. -/
def context (source : Source) : Option Message := source.map fun m => .object [("context", m)]

theorem exists_envelope (source : Source) (kind : BodyKind) (body : List (String × Message)) :
    ∃ fields, envelope true source kind.name body = .object fields ∧
      Envelope kind.name (.object body) (context source) fields := by
  cases source with
  | none => exact ⟨_, rfl, .bare⟩
  | some m => exact ⟨_, rfl, .before _⟩

theorem envelope_none (sourced : Bool) (source : Source) (kind : String)
    (body : List (String × Message)) :
    envelope sourced none kind body = envelope false source kind body := by
  cases sourced <;> cases source <;> rfl

/-- The message without source contexts is that of the program without any. -/
theorem toMessage_relocate_none (n : Node) :
    (n.relocate fun _ => none).toMessage true = n.toMessage false := by
  induction n with
  | constant s e =>
    rw [relocate, toMessage, toMessage, envelope_none true s, Expr.toMessage_bare]
  | reference s v => rw [relocate, toMessage, toMessage, envelope_none true s]
  | call s f as hf has =>
    have hall : (as.map (relocate fun _ => none)).map (toMessage true) =
        as.map (toMessage false) := by
      rw [List.map_map]
      exact List.map_congr_left has
    rw [relocate, relocateAll_eq, toMessage, toMessage, toMessages_eq, toMessages_eq, hf, hall,
      envelope_none true s]
  | ifThen s t a ht ha => rw [relocate, toMessage, toMessage, ht, ha, envelope_none true s]
  | ifThenElse s t a b ht ha hb =>
    rw [relocate, toMessage, toMessage, ht, ha, hb, envelope_none true s]

theorem toMessage_eq_object (n : Node) : ∃ fields, n.toMessage true = .object fields := by
  cases n with
  | _ => exact ⟨_, rfl⟩

/-! ## Reading -/

variable {g : Message → Message} {kind : BodyKind} {source : Source}
  {fields : List (String × Message)} {m : Message}

theorem BodyKind.ofName?_name (kind : BodyKind) : BodyKind.ofName? kind.name = some kind := by
  cases kind <;> rfl

theorem BodyKind.name_ne_sourceKey (kind : BodyKind) : kind.name ≠ sourceKey := by
  cases kind <;> decide

theorem ofField_of_lookup (h : fields.lookup kind.name = some m) :
    ofField kind source fields = (ofBody kind source m).mapError (·.error kind m) :=
  search_of_lookup (ofField kind source)
    (fun m => (ofBody kind source m).mapError (·.error kind m)) (fun _ _ _ => by rw [ofField]) h

theorem ofPart_of_lookup {name : String} (h : fields.lookup name = some m) :
    ofPart name fields = inside (ofMessage m) :=
  search_of_lookup (ofPart name) (fun m => inside (ofMessage m)) (fun _ _ _ => by rw [ofPart]) h

theorem ofArguments_of_lookup (h : fields.lookup "positional_args" = some m) :
    ofArguments fields = ofItems m :=
  search_of_lookup ofArguments ofItems (fun _ _ _ => by rw [ofArguments]) h

theorem contextOf_of_lookup (hg : Reorders g) (hs : Source.Textual source)
    (h : fields.lookup sourceKey = (context source).map g) :
    contextOf fields = .ok source := by
  rw [contextOf, h, context]
  obtain rfl | ⟨t, rfl⟩ := Source.textual_cases hs
  · rfl
  · have hkeys : ([("context", Message.str t)].map Prod.fst).Nodup := List.nodup_singleton _
    obtain ⟨inner, hinner, hlookup, -⟩ := hg.object hkeys
    have hcontext : inner.lookup "context" = some (.str t) := by
      rw [hlookup, List.lookup_cons_self, Option.map_some, hg.leaf rfl]
    simp only [Option.map_some, hinner, hcontext]

/-- Reading goes on with the body, the source context being known. -/
theorem ofMessage_envelope (hg : Reorders g) (hs : Source.Textual source) (kind : BodyKind)
    {body : List (String × Message)} {n : Node}
    (h : ofBody kind source (g (.object body)) = .ok n) :
    ofMessage (g (envelope true source kind.name body)) = .ok n := by
  obtain ⟨fields, hfields, henvelope⟩ := exists_envelope source kind body
  obtain ⟨fields', hfields', hsole, hbody, hcontext⟩ :=
    henvelope.reordered hg kind.name_ne_sourceKey
  have hkind : (soleKey? fields').bind BodyKind.ofName? = some kind := by
    rw [hsole, Option.bind_some, kind.ofName?_name]
  have hsource := contextOf_of_lookup hg hs hcontext
  simp only [hfields, hfields', ofMessage, hkind, hsource, bind, Except.bind,
    ofField_of_lookup hbody, h]
  rfl

theorem ofMessages_map {f : Node → Message} {h : Node → Node} {ns : List Node}
    (hns : ∀ n ∈ ns, ofMessage (f n) = .ok (h n)) : ofMessages (ns.map f) = .ok (ns.map h) := by
  induction ns with
  | nil => rfl
  | cons n ns ih =>
    rw [List.forall_mem_cons] at hns
    rw [List.map_cons, ofMessages, hns.1, ih hns.2]
    rfl

theorem ofBody_constant (hg : Reorders g) {e : Expr} (h : e.WellFormed) :
    ofBody .constant source (g (.object [("value", e.toMessage false)])) =
      .ok (.constant source e.bare) := by
  have hkeys : ([("value", e.toMessage false)].map Prod.fst).Nodup := List.nodup_singleton _
  obtain ⟨fields, hfields, hlookup, -⟩ := hg.object hkeys
  have hvalue := hlookup "value"
  rw [List.lookup_cons_self, Option.map_some, ← Expr.toMessage_bare true] at hvalue
  have hread := Expr.ofMessage_toMessage hg (Expr.wellFormed_bare.2 h)
    (Expr.sources_bare Source.textual_none e)
  simp only [hfields, ofBody, hvalue, hread]
  rfl

theorem ofBody_reference (hg : Reorders g) (s : Symbol) :
    ofBody .reference source (g (.object [("symbol", s.toMessage)])) =
      .ok (.reference source s) := by
  have hkeys : ([("symbol", s.toMessage)].map Prod.fst).Nodup := List.nodup_singleton _
  obtain ⟨fields, hfields, hlookup, -⟩ := hg.object hkeys
  have hsymbol := hlookup "symbol"
  rw [List.lookup_cons_self, Option.map_some] at hsymbol
  simp only [hfields, ofBody, hsymbol, Symbol.ofMessage_toMessage hg]
  rfl

theorem ofBody_call (hg : Reorders g) {f : Message} {n : Node} {ms : List Message} {ns : List Node}
    (hf : ofMessage (g f) = .ok n) (hms : ofMessages (ms.map g) = .ok ns) :
    ofBody .call source (g (.object [("function", f), ("positional_args", .list ms)])) =
      .ok (.call source n ns) := by
  have hkeys : ([("function", f), ("positional_args", .list ms)].map Prod.fst).Nodup := by simp
  obtain ⟨fields, hfields, hlookup, -⟩ := hg.object hkeys
  have hfunction : fields.lookup "function" = some (g f) := hlookup "function"
  have hargs : fields.lookup "positional_args" = some (.list (ms.map g)) := by
    rw [hlookup, ← hg.list]
    rfl
  simp only [hfields, ofBody, ofArguments_of_lookup hargs, ofItems, hms,
    ofPart_of_lookup hfunction, hf]
  rfl

theorem ofBody_ifThen (hg : Reorders g) {t a : Message} {n₁ n₂ : Node}
    (ht : ofMessage (g t) = .ok n₁) (ha : ofMessage (g a) = .ok n₂) :
    ofBody .conditional source (g (.object [("test", t), ("then_expression", a)])) =
      .ok (.ifThen source n₁ n₂) := by
  have hkeys : ([("test", t), ("then_expression", a)].map Prod.fst).Nodup := by simp
  obtain ⟨fields, hfields, hlookup, -⟩ := hg.object hkeys
  have htest : fields.lookup "test" = some (g t) := hlookup "test"
  have hthen : fields.lookup "then_expression" = some (g a) := hlookup "then_expression"
  have helse : fields.lookup "else_expression" = none := hlookup "else_expression"
  simp only [hfields, ofBody, ofPart_of_lookup htest, ofPart_of_lookup hthen, helse, ht, ha]
  rfl

theorem ofBody_ifThenElse (hg : Reorders g) {t a b : Message} {n₁ n₂ n₃ : Node}
    (ht : ofMessage (g t) = .ok n₁) (ha : ofMessage (g a) = .ok n₂)
    (hb : ofMessage (g b) = .ok n₃) :
    ofBody .conditional source
        (g (.object [("test", t), ("then_expression", a), ("else_expression", b)])) =
      .ok (.ifThenElse source n₁ n₂ n₃) := by
  have hkeys : ([("test", t), ("then_expression", a), ("else_expression", b)].map
      Prod.fst).Nodup := by simp
  obtain ⟨fields, hfields, hlookup, -⟩ := hg.object hkeys
  have htest : fields.lookup "test" = some (g t) := hlookup "test"
  have hthen : fields.lookup "then_expression" = some (g a) := hlookup "then_expression"
  have helse : fields.lookup "else_expression" = some (g b) := hlookup "else_expression"
  -- null would count as a missing alternative, but it is no node
  have hnull : g b ≠ .null := by
    intro hnull
    rw [hnull] at hb
    cases hb
  simp only [hfields, ofBody, ofPart_of_lookup htest, ofPart_of_lookup hthen,
    ofPart_of_lookup helse, helse, ht, ha, hb]
  cases hm : g b with
  | null => exact absurd hm hnull
  | _ => rfl

/-- The message of a program is read as that program, in whatever order its fields are. -/
theorem ofMessage_toMessage (hg : Reorders g) {n : Node} (hw : ∀ e ∈ n.constants, e.WellFormed)
    (hs : ∀ s ∈ n.sources, Source.Textual s) :
    ofMessage (g (n.toMessage true)) = .ok (n.relocate id) := by
  induction n with
  | constant s e =>
    rw [constants, List.forall_mem_singleton] at hw
    rw [sources, List.forall_mem_singleton] at hs
    exact ofMessage_envelope hg hs .constant (ofBody_constant hg hw)
  | reference s v =>
    rw [sources, List.forall_mem_singleton] at hs
    exact ofMessage_envelope hg hs .reference (ofBody_reference hg v)
  | call s f as hf has =>
    rw [constants, constantsAll_eq, List.forall_mem_append] at hw
    rw [sources, sourcesAll_eq, List.forall_mem_append, List.forall_mem_cons] at hs
    have hargs : ∀ n ∈ as, ofMessage (g (n.toMessage true)) = .ok (n.relocate id) := fun n hn =>
      has n hn (fun e he => hw.2 e (List.mem_flatMap.2 ⟨n, hn, he⟩))
        (fun s hs' => hs.2 s (List.mem_flatMap.2 ⟨n, hn, hs'⟩))
    refine ofMessage_envelope hg hs.1.1 .call (ofBody_call hg (hf hw.1 hs.1.2) ?_)
    rw [toMessages_eq, List.map_map, relocateAll_eq]
    exact ofMessages_map hargs
  | ifThen s t a ht ha =>
    rw [constants, List.forall_mem_append] at hw
    rw [sources, List.forall_mem_append, List.forall_mem_cons] at hs
    exact ofMessage_envelope hg hs.1.1 .conditional
      (ofBody_ifThen hg (ht hw.1 hs.1.2) (ha hw.2 hs.2))
  | ifThenElse s t a b ht ha hb =>
    rw [constants, List.forall_mem_append, List.forall_mem_append] at hw
    rw [sources, List.forall_mem_append, List.forall_mem_append, List.forall_mem_cons] at hs
    exact ofMessage_envelope hg hs.1.1.1 .conditional
      (ofBody_ifThenElse hg (ht hw.1.1 hs.1.1.2) (ha hw.1.2 hs.1.2) (hb hw.2 hs.2))

/-! ## Passing through JSON text -/

theorem isBytes_toMessage (n : Node) : (n.toMessage true).isBytes = false := by
  obtain ⟨fields, hfields⟩ := n.toMessage_eq_object
  rw [hfields]
  rfl

theorem loadable_context (t : String) :
    (Message.object [("context", .str t)]).Every (Loadable .standard) := by
  refine Message.loadable_object (List.nodup_singleton _) ?_ ?_
  · exact List.forall_mem_singleton.2 ⟨by simp, rfl⟩
  · exact List.forall_mem_singleton.2 (Message.loadable_leaf rfl trivial)

theorem BodyKind.name_ne_bytes (kind : BodyKind) : kind.name ≠ "bytes" := by
  cases kind <;> decide

theorem loadable_envelope (hs : Source.Textual source) (kind : BodyKind)
    {body : List (String × Message)} (h : (Message.object body).Every (Loadable .standard)) :
    (envelope true source kind.name body).Every (Loadable .standard) := by
  have hkind := kind.name_ne_bytes
  obtain ⟨fields, hfields, henvelope⟩ := exists_envelope source kind body
  rw [hfields]
  refine Message.loadable_envelope henvelope kind.name_ne_sourceKey ?_ ?_ h ?_
  · intro hb
    cases hb
  · intro hk
    exact absurd hk hkind
  · intro m hm
    obtain rfl | ⟨t, rfl⟩ := Source.textual_cases hs
    · cases hm
    · cases hm
      exact ⟨rfl, loadable_context t⟩

theorem loadable_toMessage {n : Node} (hw : ∀ e ∈ n.constants, e.WellFormed)
    (hs : ∀ s ∈ n.sources, Source.Textual s) : (n.toMessage true).Every (Loadable .standard) := by
  induction n with
  | constant s e =>
    rw [constants, List.forall_mem_singleton] at hw
    rw [sources, List.forall_mem_singleton] at hs
    apply loadable_envelope hs .constant
    rw [← Expr.toMessage_bare true e]
    refine Message.loadable_object (List.nodup_singleton _) ?_ ?_
    · exact List.forall_mem_singleton.2 ⟨by simp, e.bare.isBytes_toMessage⟩
    · exact List.forall_mem_singleton.2
        (Expr.loadable_toMessage (Expr.wellFormed_bare.2 hw)
          (Expr.sources_bare Source.textual_none e))
  | reference s v =>
    rw [sources, List.forall_mem_singleton] at hs
    apply loadable_envelope hs .reference
    refine Message.loadable_object (List.nodup_singleton _) ?_ ?_
    · exact List.forall_mem_singleton.2 ⟨by simp, rfl⟩
    · exact List.forall_mem_singleton.2 v.loadable_toMessage
  | call s f as hf has =>
    rw [constants, constantsAll_eq, List.forall_mem_append] at hw
    rw [sources, sourcesAll_eq, List.forall_mem_append, List.forall_mem_cons] at hs
    have hargs : (Message.list (as.map (toMessage true))).Every (Loadable .standard) :=
      Message.loadable_list (List.forall_mem_map.2 fun n _ => n.isBytes_toMessage)
        (List.forall_mem_map.2 fun n hn =>
          has n hn (fun e he => hw.2 e (List.mem_flatMap.2 ⟨n, hn, he⟩))
            fun s hs' => hs.2 s (List.mem_flatMap.2 ⟨n, hn, hs'⟩))
    apply loadable_envelope hs.1.1 .call
    rw [toMessages_eq]
    have hbytes : (Message.list (as.map (toMessage true))).isBytes = false := rfl
    refine Message.loadable_object (by simp) ?_ ?_
    · simp [isBytes_toMessage, hbytes]
    · simp [hf hw.1 hs.1.2, hargs]
  | ifThen s t a ht ha =>
    rw [constants, List.forall_mem_append] at hw
    rw [sources, List.forall_mem_append, List.forall_mem_cons] at hs
    refine loadable_envelope hs.1.1 .conditional (Message.loadable_object (by simp) ?_ ?_)
    · simp [isBytes_toMessage]
    · simp [ht hw.1 hs.1.2, ha hw.2 hs.2]
  | ifThenElse s t a b ht ha hb =>
    rw [constants, List.forall_mem_append, List.forall_mem_append] at hw
    rw [sources, List.forall_mem_append, List.forall_mem_append, List.forall_mem_cons] at hs
    refine loadable_envelope hs.1.1.1 .conditional (Message.loadable_object (by simp) ?_ ?_)
    · simp [isBytes_toMessage]
    · simp [ht hw.1.1 hs.1.1.2, ha hw.1.2 hs.1.2, hb hw.2 hs.2]

/-- A program comes back from the JSON text of its message with the source contexts of all its
nodes, and from its message without source contexts it comes back without any. Both are equal to
the program unless it holds `nan`. -/
theorem load_write_relocate (n : Node) (hw : ∀ e ∈ n.constants, e.WellFormed)
    (hs : ∀ s ∈ n.sources, Source.Textual s) (spread : Message.Spread) :
    load ((n.toMessage true).write spread) = .ok (n.relocate id) ∧
      (n.relocate id).sources = n.sources ∧
    ofMessage (n.toMessage false) = .ok (n.relocate fun _ => none) ∧
      (∀ s ∈ (n.relocate fun _ => none).sources, s = none) ∧
      (∀ e ∈ (n.relocate fun _ => none).constants, e.Sources (· = none)) ∧
    ((∀ e ∈ n.constants, e.Leaves Atom.NotNan) →
      (n.relocate id).same n = true ∧ (n.relocate fun _ => none).same n = true) := by
  refine ⟨?_, ?_, ?_, ?_, ?_, fun h => ⟨same_relocate id h, same_relocate _ h⟩⟩
  · have hload := loadable_toMessage hw hs
    have hread := ofMessage_toMessage Message.reorders_sorted hw hs
    obtain ⟨fields, hfields⟩ := n.toMessage_eq_object
    rw [hfields] at hload hread ⊢
    rw [load, Message.load, Message.load_write spread hload]
    exact hread
  · rw [sources_relocate, List.map_id]
  · have hread : ofMessage (id ((n.relocate fun _ => none).toMessage true)) =
        .ok ((n.relocate fun _ => none).relocate id) := by
      refine ofMessage_toMessage Message.reorders_id ?_ ?_
      · rw [constants_relocate, List.forall_mem_map]
        exact fun e he => Expr.wellFormed_bare.2 (hw e he)
      · rw [sources_relocate, List.forall_mem_map]
        exact fun _ _ => Source.textual_none
    rw [toMessage_relocate_none, relocate_relocate] at hread
    exact hread
  · rw [sources_relocate, List.forall_mem_map]
    exact fun _ _ => rfl
  · rw [constants_relocate, List.forall_mem_map]
    exact fun e _ => Expr.sources_bare (P := (· = none)) rfl e

theorem load_write_relocate_call :
    load ((toMessage true
      (.call (some (.str "")) (.reference (some (.str "f:1")) ⟨"+", "formula"⟩)
        [.constant none (.list (some (.str "f:2")) [.atom none (.bytes [1])]),
          .ifThenElse none (.constant none (.atom none (.bool true)))
            (.constant none (.atom none (.int .sint32 (-1)))) (.reference none ⟨"x", ""⟩)])).write
      (some 2)) =
    .ok (.call (some (.str "")) (.reference (some (.str "f:1")) ⟨"+", "formula"⟩)
        [.constant none (.list none [.atom none (.bytes [1])]),
          .ifThenElse none (.constant none (.atom none (.bool true)))
            (.constant none (.atom none (.int .sint32 (-1)))) (.reference none ⟨"x", ""⟩)]) := by
  refine (load_write_relocate _ ?_ ?_ (some 2)).1
  · simp only [constants, constantsAll, List.nil_append, List.append_nil, List.singleton_append,
      List.forall_mem_cons, List.not_mem_nil, false_implies, implies_true, Expr.WellFormed,
      Expr.WellFormedAll, Atom.WellFormed]
    decide
  · simp [sources, sourcesAll, Source.Textual, Message.isString]

end Formulary.Node
