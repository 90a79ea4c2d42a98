import Formulary.Proofs.Expr.Fault

/-!
# The grammar of expressions as messages

A message of the grammar is an object with one field besides the source context. The field is
named by a kind, and its payload fits the kind; the payload of a list holds messages of the
grammar again. Decoding takes the messages of the grammar and no others, and encoding what was
decoded gives the normal form of the message.
-/
namespace Formulary

open Message (sourceKey sourceOf soleKey?_eq_some_iff)

/-! ## Payloads that fit a kind -/

namespace IntKind

def bits : IntKind → Nat
  | int32 | uint32 | sint32 | fixed32 | sfixed32 => 32
  | int64 | uint64 | sint64 | fixed64 | sfixed64 => 64

def isSigned : IntKind → Bool
  | int32 | int64 | sint32 | sint64 | sfixed32 | sfixed64 => true
  | uint32 | uint64 | fixed32 | fixed64 => false

/-- The integers of the width, in two's complement if the kind is signed. -/
def Holds (k : IntKind) (n : Int) : Prop :=
  if k.isSigned then -2 ^ (k.bits - 1) ≤ n ∧ n < 2 ^ (k.bits - 1) else 0 ≤ n ∧ n < 2 ^ k.bits

theorem contains_iff_holds {k : IntKind} {n : Int} : k.contains n = true ↔ k.Holds n := by
  have hbounds : k.contains n = true ↔ k.min ≤ n ∧ n ≤ k.max := by simp [contains]
  rw [hbounds, Holds]
  cases k <;> simp only [min, max, isSigned, bits, if_true, Bool.false_eq_true, if_false] <;> omega

end IntKind

/-- The payloads that fit a kind whose expressions are atoms. -/
def Kind.Admits : Kind → Message → Prop
  | .bool, m => ∃ b, m = .bool b
  | .int k, m => ∃ n, m = .int n ∧ k.Holds n
  | .single, m | .double, m =>
    (∃ x, m = .double x) ∨ ∃ n, m = .int n ∧ Binary.ofInt? .double n ≠ none
  | .bytes, m => ∃ bs, m = .bytes bs
  | .string, m => ∃ s, m = .str s
  | .symbol, m => ∃ body, m = .object body ∧
    (∀ part, body.lookup "name" = some part → ∃ s, part = .str s) ∧
    ∀ part, body.lookup "namespace" = some part → ∃ s, part = .str s
  | .list, _ => False

namespace Expr

/-- The messages of the grammar. -/
inductive Grammar : Message → Prop where
  | atom {fields : List (String × Message)} {kind : Kind} {payload : Message}
    (hsole : fields.filter (·.1 != sourceKey) = [(kind.name, payload)])
    (hpayload : kind.Admits payload) : Grammar (.object fields)
  | list {fields body : List (String × Message)}
    (hsole : fields.filter (·.1 != sourceKey) = [(Kind.list.name, .object body)])
    (hlist : ∀ m, body.lookup "elements" = some m → ∃ items, m = .list items)
    (hitems : ∀ items, body.lookup "elements" = some (.list items) →
      ∀ item ∈ items, Grammar item) : Grammar (.object fields)

/-! ## Normal forms -/

/-- The double nearest to a number. -/
def nearestDouble : Message → Message
  | .int n =>
    match Binary.ofInt? .double n with
    | some x => .double x
    | none => .int n
  | m => m

/-- The single nearest to a double, as a double again. -/
def nearestSingle : Message → Message
  | .double x => .double ((x.convert .single).convert .double)
  | m => m

/-- A symbol always has a name, and it has a namespace only if that is not empty. -/
def normalSymbol (body : List (String × Message)) : Message :=
  .object (("name", (body.lookup "name").getD (.str "")) ::
    match body.lookup "namespace" with
    | some (.str space) => if space = "" then [] else [("namespace", .str space)]
    | _ => [])

def normalAtom : Kind → Message → Message
  | .double, m => nearestDouble m
  | .single, m => nearestSingle (nearestDouble m)
  | .symbol, .object body => normalSymbol body
  | _, m => m

/-- The source context stands behind the payload; null is left out. -/
def normalContext (fields : List (String × Message)) : List (String × Message) :=
  match fields.lookup sourceKey with
  | none | some .null => []
  | some m => [(sourceKey, m)]

mutual

/-- The message with what may be missing filled in and with what is not looked at left out. -/
def normalForm : Message → Message
  | .object fields => .object (normalFields fields ++ normalContext fields)
  | m => m

def normalFields : List (String × Message) → List (String × Message)
  | [] => []
  | (key, m) :: fields =>
    match Kind.ofName? key with
    | some kind => (key, normalPayload kind m) :: normalFields fields
    | none => normalFields fields

def normalPayload (kind : Kind) : Message → Message
  | .object body =>
    if kind = .list then .object [("elements", .list (normalElements body))]
    else normalAtom kind (.object body)
  | m => normalAtom kind m

def normalElements : List (String × Message) → List Message
  | [] => []
  | (key, m) :: body => if key = "elements" then normalItems m else normalElements body

def normalItems : Message → List Message
  | .list items => normalForms items
  | _ => []

def normalForms : List Message → List Message
  | [] => []
  | m :: ms => normalForm m :: normalForms ms

end

theorem normalForms_eq (items : List Message) : normalForms items = items.map normalForm := by
  induction items with
  | nil => rfl
  | cons m ms ih => rw [normalForms, ih, List.map_cons]

theorem normalElements_of_lookup {body : List (String × Message)} {m : Message}
    (h : body.lookup "elements" = some m) : normalElements body = normalItems m :=
  search_of_lookup normalElements normalItems (fun _ _ _ => by rw [normalElements]) h

theorem normalElements_of_none {body : List (String × Message)}
    (h : body.lookup "elements" = none) : normalElements body = [] := by
  rw [search_of_none normalElements normalItems (fun _ _ _ => by rw [normalElements]) h,
    normalElements]

end Expr

/-! ## Atoms -/

theorem Symbol.ofMessage_ok_iff {m : Message} {s : Symbol} : Symbol.ofMessage m = .ok s ↔
    ∃ body, m = .object body ∧ (body.lookup "name").getD (.str "") = .str s.name ∧
      (body.lookup "namespace").getD (.str "") = .str s.space := by
  obtain ⟨name, space⟩ := s
  cases m with
  | object body =>
    rw [ofMessage]
    split
    next hname hspace => simp [hname, hspace]
    next hnot =>
      simp only [reduceCtorEq, Message.object.injEq, exists_eq_left', false_iff, not_and]
      exact fun hname hspace => hnot name space hname hspace
  | _ => simp [ofMessage]

/-- A part that is missing counts as an empty text. -/
theorem exists_getD_str_iff {part? : Option Message} :
    (∃ s, part?.getD (.str "") = .str s) ↔ ∀ part, part? = some part → ∃ s, part = .str s := by
  cases part? with
  | none => simp
  | some part => simp

theorem Symbol.toMessage_eq_normal {body : List (String × Message)} {s : Symbol}
    (hname : (body.lookup "name").getD (.str "") = .str s.name)
    (hspace : (body.lookup "namespace").getD (.str "") = .str s.space) :
    s.toMessage = Expr.normalSymbol body := by
  rw [toMessage, Expr.normalSymbol, hname]
  cases hpart : body.lookup "namespace" with
  | none =>
    rw [hpart, Option.getD_none, Message.str.injEq] at hspace
    rw [if_pos hspace.symm]
  | some part =>
    rw [hpart, Option.getD_some] at hspace
    rw [hspace]

namespace Atom

open Formulary.Expr (nearestDouble nearestSingle normalAtom)

variable {kind : Kind} {m : Message}

theorem number_ok_iff {x : Double} : number kind m = .ok x ↔ nearestDouble m = .double x := by
  -- the rounding of an integer is not to be evaluated
  obtain ⟨nearest?, hnearest⟩ : ∃ f, f = Binary.ofInt? .double := ⟨_, rfl⟩
  unfold number nearestDouble
  rw [← hnearest]
  cases m with
  | int n =>
    dsimp only
    cases nearest? n <;> simp
  | double y => simp
  | _ => simp

theorem admits_number_iff :
    ((∃ x, m = .double x) ∨ ∃ n, m = .int n ∧ Binary.ofInt? .double n ≠ none) ↔
      ∃ x, nearestDouble m = .double x := by
  obtain ⟨nearest?, hnearest⟩ : ∃ f, f = Binary.ofInt? .double := ⟨_, rfl⟩
  unfold nearestDouble
  rw [← hnearest]
  cases m with
  | int n =>
    dsimp only
    cases h : nearest? n <;> simp [h]
  | _ => simp

/-- What is decoded fits the kind, and encoding it gives the normal form. -/
theorem admits_of_ofPayload {a : Atom} (h : ofPayload kind m = .ok a) :
    kind.Admits m ∧ a.kind = kind ∧ a.payload = normalAtom kind m := by
  cases kind with
  | bool | bytes | string =>
    cases m <;> cases h
    exact ⟨⟨_, rfl⟩, rfl, rfl⟩
  | int k =>
    cases m with
    | int n =>
      rw [ofPayload] at h
      split_ifs at h with hn
      cases h
      exact ⟨⟨n, rfl, IntKind.contains_iff_holds.1 hn⟩, rfl, rfl⟩
    | _ => cases h
  | double =>
    rw [ofPayload] at h
    obtain ⟨x, hx, rfl⟩ := map_ok_iff.1 h
    have hx := number_ok_iff.1 hx
    exact ⟨admits_number_iff.2 ⟨x, hx⟩, rfl, hx.symm⟩
  | single =>
    rw [ofPayload] at h
    obtain ⟨x, hx, rfl⟩ := map_ok_iff.1 h
    have hx := number_ok_iff.1 hx
    refine ⟨admits_number_iff.2 ⟨x, hx⟩, rfl, ?_⟩
    rw [normalAtom, hx]
    rfl
  | symbol =>
    rw [ofPayload] at h
    obtain ⟨s, hs, rfl⟩ := map_ok_iff.1 h
    obtain ⟨body, rfl, hname, hspace⟩ := Symbol.ofMessage_ok_iff.1 hs
    refine ⟨⟨body, rfl, ?_, ?_⟩, rfl, Symbol.toMessage_eq_normal hname hspace⟩
    · exact exists_getD_str_iff.1 ⟨_, hname⟩
    · exact exists_getD_str_iff.1 ⟨_, hspace⟩
  | list => cases h

theorem exists_ofPayload_of_admits (h : kind.Admits m) : ∃ a, ofPayload kind m = .ok a := by
  cases kind with
  | bool | bytes | string =>
    obtain ⟨_, rfl⟩ := h
    exact ⟨_, rfl⟩
  | int k =>
    obtain ⟨n, rfl, hn⟩ := h
    exact ⟨.int k n, if_pos (IntKind.contains_iff_holds.2 hn)⟩
  | double | single =>
    obtain ⟨x, hx⟩ := admits_number_iff.1 h
    exact ⟨_, map_ok_iff.2 ⟨x, number_ok_iff.2 hx, rfl⟩⟩
  | symbol =>
    obtain ⟨body, rfl, hname, hspace⟩ := h
    obtain ⟨name, hname⟩ := exists_getD_str_iff.2 hname
    obtain ⟨space, hspace⟩ := exists_getD_str_iff.2 hspace
    have hs : Symbol.ofMessage (.object body) = .ok ⟨name, space⟩ :=
      Symbol.ofMessage_ok_iff.2 ⟨body, rfl, hname, hspace⟩
    exact ⟨_, map_ok_iff.2 ⟨_, hs, rfl⟩⟩
  | list => cases h

end Atom

/-! ## Expressions -/

namespace Expr

variable {fields body : List (String × Message)} {kind : Kind} {payload m : Message}
  {source : Source} {e : Expr}

theorem lookup_of_sole (h : fields.filter (·.1 != sourceKey) = [(kind.name, payload)]) :
    fields.lookup kind.name = some payload := by
  obtain ⟨m, hm⟩ := Message.exists_lookup_of_soleKey? (soleKey?_eq_some_iff.2 ⟨payload, h⟩)
  have hmem : (kind.name, m) ∈ fields.filter (·.1 != sourceKey) :=
    List.mem_filter.2 ⟨mem_of_lookup hm, bne_iff_ne.2 kind.name_ne_sourceKey⟩
  rw [h, List.mem_singleton] at hmem
  cases hmem
  exact hm

theorem soleKind?_of_sole (h : fields.filter (·.1 != sourceKey) = [(kind.name, payload)]) :
    soleKind? fields = some kind := by
  rw [soleKind?, soleKey?_eq_some_iff.2 ⟨payload, h⟩, Option.bind_some, kind.ofName?_name]

theorem ofMessage_ok_iff : ofMessage m = .ok e ↔ ∃ fields kind payload, m = .object fields ∧
    fields.filter (·.1 != sourceKey) = [(kind.name, payload)] ∧
    ofPayload kind (sourceOf fields) payload = .ok e := by
  constructor
  · intro h
    cases m with
    | object fields =>
      cases hkind : soleKind? fields with
      | none =>
        simp only [ofMessage, hkind] at h
        cases h
      | some kind =>
        obtain ⟨key, hsole, hkey⟩ := Option.bind_eq_some_iff.1 hkind
        obtain ⟨payload, hfilter⟩ := soleKey?_eq_some_iff.1 hsole
        rw [← Kind.name_of_ofName? hkey] at hfilter
        simp only [ofMessage, hkind, ofField_of_lookup (lookup_of_sole hfilter)] at h
        exact ⟨fields, kind, payload, rfl, hfilter, h⟩
    | _ => cases h
  · rintro ⟨fields, kind, payload, rfl, hfilter, h⟩
    simp only [ofMessage, soleKind?_of_sole hfilter, ofField_of_lookup (lookup_of_sole hfilter)]
    exact h

theorem ofPayload_ok_iff : ofPayload kind source m = .ok e ↔
    (∃ a, Atom.ofPayload kind m = .ok a ∧ .atom source a = e) ∨
      ∃ body es, kind = .list ∧ m = .object body ∧ ofElements body = .ok es ∧
        .list source es = e := by
  cases m with
  | object body =>
    rw [ofPayload]
    split_ifs with hlist
    · subst hlist
      simp [map_ok_iff, Atom.ofPayload]
    · simp [map_ok_iff, hlist]
  | _ => simp [ofPayload, map_ok_iff]

theorem ofMessages_ok_iff {index : Nat} {items : List Message} {es : List Expr} :
    ofMessages index items = .ok es ↔ List.Forall₂ (fun m e => ofMessage m = .ok e) items es := by
  induction items generalizing index es with
  | nil => simp [ofMessages, eq_comm]
  | cons m ms ih =>
    rw [ofMessages, List.forall₂_cons_left_iff]
    cases hm : ofMessage m with
    | error cause => simp
    | ok e =>
      constructor
      · intro h
        obtain ⟨es', hes', rfl⟩ := map_ok_iff.1 h
        exact ⟨e, es', rfl, ih.1 hes', rfl⟩
      · rintro ⟨_, es', ⟨⟩, hes', rfl⟩
        exact map_ok_iff.2 ⟨es', ih.2 hes', rfl⟩

/-- The elements are those of the list under their key, if there is one. -/
theorem ofElements_ok_iff {es : List Expr} : ofElements body = .ok es ↔
    (body.lookup "elements" = none ∧ es = []) ∨ ∃ items,
      body.lookup "elements" = some (.list items) ∧
        List.Forall₂ (fun m e => ofMessage m = .ok e) items es := by
  cases hm : body.lookup "elements" with
  | none => simp [ofElements_of_none hm, eq_comm]
  | some m =>
    rw [ofElements_of_lookup hm]
    cases m with
    | list items => simp [ofItems, ofMessages_ok_iff]
    | _ => simp [ofItems]

theorem normalFields_filter (fields : List (String × Message)) :
    normalFields (fields.filter (·.1 != sourceKey)) = normalFields fields := by
  induction fields with
  | nil => rfl
  | cons f fields ih =>
    obtain ⟨key, m⟩ := f
    by_cases hkey : key = sourceKey
    · subst hkey
      have hnone : Kind.ofName? sourceKey = none := by decide
      rw [List.filter_cons_of_neg (by simp), ih, normalFields, hnone]
    · rw [List.filter_cons_of_pos (by simpa using hkey), normalFields, normalFields, ih]

theorem envelope_sourceOf (key : String) (payload : Message)
    (fields : List (String × Message)) :
    envelope key payload (sourceOf fields) true =
      .object ((key, payload) :: normalContext fields) := by
  unfold envelope sourceOf normalContext
  cases fields.lookup sourceKey with
  | none => rfl
  | some m => cases m <;> rfl

theorem normalForm_of_sole (h : fields.filter (·.1 != sourceKey) = [(kind.name, payload)]) :
    normalForm (.object fields) =
      envelope kind.name (normalPayload kind payload) (sourceOf fields) true := by
  rw [normalForm, ← normalFields_filter, h, normalFields, kind.ofName?_name, normalFields,
    envelope_sourceOf]
  rfl

theorem normalPayload_atom (h : kind.Admits m) : normalPayload kind m = normalAtom kind m := by
  cases m with
  | object body =>
    rw [normalPayload, if_neg]
    rintro rfl
    exact h
  | _ => simp [normalPayload]

/-! ## Decoding against the grammar -/

theorem exists_ofMessage_of_grammar (h : Grammar m) : ∃ e, ofMessage m = .ok e := by
  induction h with
  | @atom fields kind payload hsole hpayload =>
    obtain ⟨a, ha⟩ := Atom.exists_ofPayload_of_admits hpayload
    exact ⟨_, ofMessage_ok_iff.2 ⟨fields, kind, payload, rfl, hsole,
      ofPayload_ok_iff.2 (.inl ⟨a, ha, rfl⟩)⟩⟩
  | @list fields body hsole hlist _ ih =>
    obtain ⟨es, hes⟩ : ∃ es, ofElements body = .ok es := by
      cases helements : body.lookup "elements" with
      | none => exact ⟨[], ofElements_of_none helements⟩
      | some m =>
        obtain ⟨items, rfl⟩ := hlist m helements
        obtain ⟨es, hes⟩ := exists_forall₂_iff.2 (ih items helements)
        exact ⟨es, ofElements_ok_iff.2 (.inr ⟨items, helements, hes⟩)⟩
    exact ⟨_, ofMessage_ok_iff.2 ⟨fields, .list, .object body, rfl, hsole,
      ofPayload_ok_iff.2 (.inr ⟨body, es, rfl, rfl, hes, rfl⟩)⟩⟩

theorem grammar_of_items {items : List Message} {es : List Expr}
    (h : List.Forall₂ (fun m e => ofMessage m = .ok e) items es)
    (hitems : ∀ m ∈ items, ∀ e, ofMessage m = .ok e →
      Grammar m ∧ e.toMessage true = normalForm m) :
    (∀ m ∈ items, Grammar m) ∧ es.map (toMessage true) = items.map normalForm := by
  induction h with
  | nil => simp
  | cons he _ ih =>
    obtain ⟨hm, hms⟩ := List.forall_mem_cons.1 hitems
    obtain ⟨hgrammar, hnormal⟩ := hm _ he
    obtain ⟨hrest, hmap⟩ := ih hms
    refine ⟨List.forall_mem_cons.2 ⟨hgrammar, hrest⟩, ?_⟩
    rw [List.map_cons, List.map_cons, hnormal, hmap]

/-- What is decoded is in the grammar, and encoding it gives the normal form. -/
theorem grammar_of_ofMessage (h : ofMessage m = .ok e) :
    Grammar m ∧ e.toMessage true = normalForm m := by
  induction hsize : sizeOf m using Nat.strong_induction_on generalizing m e with
  | _ size ih =>
    subst hsize
    obtain ⟨fields, kind, payload, rfl, hsole, h⟩ := ofMessage_ok_iff.1 h
    rw [normalForm_of_sole hsole]
    obtain ⟨a, ha, rfl⟩ | ⟨body, es, rfl, rfl, hes, rfl⟩ := ofPayload_ok_iff.1 h
    · obtain ⟨hadmits, rfl, hnormal⟩ := Atom.admits_of_ofPayload ha
      refine ⟨.atom hsole hadmits, ?_⟩
      rw [toMessage, hnormal, normalPayload_atom hadmits]
    · have hsmaller : ∀ items, body.lookup "elements" = some (.list items) →
          ∀ m ∈ items, sizeOf m < sizeOf (Message.object fields) := by
        intro items helements m hm
        exact sizeOf_lt_of_listMessage
          ⟨soleKind?_of_sole hsole, lookup_of_sole hsole, helements⟩ hm
      rw [toMessage, toMessages_eq, normalPayload, if_pos rfl]
      obtain ⟨hnone, rfl⟩ | ⟨items, helements, hes⟩ := ofElements_ok_iff.1 hes
      · refine ⟨.list hsole (by simp [hnone]) (by simp [hnone]), ?_⟩
        rw [normalElements_of_none hnone, List.map_nil]
      · obtain ⟨hgrammar, hnormal⟩ := grammar_of_items hes fun m hm e he =>
          ih (sizeOf m) (hsmaller items helements m hm) he rfl
        have hlist : ∀ m, body.lookup "elements" = some m → ∃ items, m = .list items := by
          rintro m hm
          exact ⟨items, Option.some.inj (hm.symm.trans helements)⟩
        refine ⟨.list hsole hlist ?_, ?_⟩
        · intro items' helements'
          cases helements'.symm.trans helements
          exact hgrammar
        · rw [normalElements_of_lookup helements, normalItems, normalForms_eq, hnormal]

/-- A message is decoded if and only if it is in the grammar, and encoding the expression gives
the normal form of the message. -/
theorem ofMessage_iff_grammar (m : Message) :
    ((∃ e, ofMessage m = .ok e) ↔ Grammar m) ∧
      ∀ e, ofMessage m = .ok e → e.toMessage true = normalForm m := by
  refine ⟨⟨?_, exists_ofMessage_of_grammar⟩, fun e h => (grammar_of_ofMessage h).2⟩
  rintro ⟨e, h⟩
  exact (grammar_of_ofMessage h).1

theorem ofMessage_iff_grammar_nested :
    let m : Message := .object [("list", .object [("hint", .null), ("elements", .list [
      .object [("source_context", .str "a:1"), ("symbol", .object [("namespace", .str "")])],
      .object [("source_context", .null), ("sint32", .int (-7))],
      .object [("list", .object [])]])])]
    Grammar m ∧ ∃ e, ofMessage m = .ok e ∧ e.toMessage true =
      .object [("list", .object [("elements", .list [
        .object [("symbol", .object [("name", .str "")]), ("source_context", .str "a:1")],
        .object [("sint32", .int (-7))],
        .object [("list", .object [("elements", .list [])])]])])] := by
  intro m
  have hof : ofMessage m = .ok (.list none [.atom (some (.str "a:1")) (.symbol ⟨"", ""⟩),
      .atom none (.int .sint32 (-7)), .list none []]) := rfl
  exact ⟨(ofMessage_iff_grammar m).1.1 ⟨_, hof⟩, _, hof, (ofMessage_iff_grammar m).2 _ hof⟩

end Expr

end Formulary
