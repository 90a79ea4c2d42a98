import Formulary.Proofs.Expr.Fault
import Formulary.Proofs.Program.Message

/-!
# The grammar of programs as messages

A message of the grammar is an object with one of four keys, whose body holds parts that are
messages of the grammar again. The decoder takes what is in the grammar, and beyond it values that
count as absent for a source context, and empty texts and objects for a list of arguments.
-/
namespace Formulary.Node

open Message (sourceKey soleKey?)
open MessageError (Reports reports_of_kind)

/-! ## The grammar -/

/-- The message has the key of the kind and perhaps a source context, with an object for its
body. -/
inductive HasBody (context : Message → Prop) (kind : BodyKind) :
    Message → List (String × Message) → Prop
  | intro {fields body : List (String × Message)} (hkey : soleKey? fields = some kind.name)
    (hcontext : ∀ c, fields.lookup sourceKey = some c → context c)
    (hbody : fields.lookup kind.name = some (.object body)) :
    HasBody context kind (.object fields) body

/-- The messages of the grammar, given what may stand for a source context, and what may stand
for a list of arguments besides a list. -/
inductive InGrammar (context arguments : Message → Prop) : Message → Prop
  | constant {m value : Message} {body : List (String × Message)} {v : Expr}
    (hm : HasBody context .constant m body) (hvalue : body.lookup "value" = some value)
    (hv : Expr.ofMessage value = .ok v) : InGrammar context arguments m
  | reference {m symbol : Message} {body : List (String × Message)} {s : Symbol}
    (hm : HasBody context .reference m body) (hsymbol : body.lookup "symbol" = some symbol)
    (hs : Symbol.ofMessage symbol = .ok s) : InGrammar context arguments m
  | call {m function : Message} {body : List (String × Message)}
    (hm : HasBody context .call m body) (hfunction : body.lookup "function" = some function)
    (hf : InGrammar context arguments function)
    (hargs : ∀ a, body.lookup "positional_args" = some a →
      arguments a ∨ ∃ items, a = .list items)
    (hitems : ∀ items, body.lookup "positional_args" = some (.list items) →
      ∀ item ∈ items, InGrammar context arguments item) : InGrammar context arguments m
  | conditional {m test consequent : Message} {body : List (String × Message)}
    (hm : HasBody context .conditional m body) (htest : body.lookup "test" = some test)
    (ht : InGrammar context arguments test)
    (hthen : body.lookup "then_expression" = some consequent)
    (hc : InGrammar context arguments consequent)
    (helse : ∀ a, body.lookup "else_expression" = some a → a ≠ .null →
      InGrammar context arguments a) : InGrammar context arguments m

/-- A source context is an object or null. -/
def IsContext (m : Message) : Prop := m = .null ∨ ∃ fields, m = .object fields

/-- The grammar of programs. -/
def Grammar : Message → Prop := InGrammar IsContext fun _ => False

/-- What is taken for a source context: an object, or a value that counts as absent. -/
def ReadsAsContext (m : Message) : Prop := m.isPresent = false ∨ ∃ fields, m = .object fields

/-- The messages that describe a program. -/
def Accepted : Message → Prop := InGrammar ReadsAsContext fun m => firstPart? m = some none

/-- The message is read as a node, but for its source context. -/
inductive ForeignContext : Message → Prop
  | intro {fields : List (String × Message)} {kind : BodyKind} {c : Message}
    (hkey : soleKey? fields = some kind.name) (hcontext : fields.lookup sourceKey = some c)
    (hc : ¬ ReadsAsContext c) : ForeignContext (.object fields)

/-! ## Nodes -/

theorem BodyKind.name_of_ofName? {key : String} {kind : BodyKind}
    (h : BodyKind.ofName? key = some kind) : kind.name = key := by
  unfold BodyKind.ofName? at h
  have hname := List.find?_some h
  exact beq_iff_eq.1 hname

/-- A message without one of the four keys is refused; the others are decoded body by body. -/
theorem ofMessage_cases (m : Message) :
    (∃ e, ofMessage m = .error e ∧ Reports m e ∧
      ∀ fields (kind : BodyKind), m = .object fields → soleKey? fields ≠ some kind.name) ∨
    ∃ fields kind body, m = .object fields ∧ soleKey? fields = some kind.name ∧
      fields.lookup kind.name = some body ∧ ofMessage m = contextOf fields >>= fun source =>
        (ofBody kind source body).mapError (·.error kind body) := by
  cases m with
  | object fields =>
    cases hkind : (soleKey? fields).bind BodyKind.ofName? with
    | none =>
      refine .inl ⟨.unknownNode (.object fields), ?_, reports_of_kind rfl, ?_⟩
      · simp only [ofMessage, hkind]
      · rintro _ kind ⟨⟩ hkey
        rw [hkey, Option.bind_some, kind.ofName?_name] at hkind
        cases hkind
    | some kind =>
      obtain ⟨key, hkey, hname⟩ := Option.bind_eq_some_iff.1 hkind
      obtain ⟨body, hbody⟩ := Message.exists_lookup_of_soleKey? hkey
      rw [← BodyKind.name_of_ofName? hname] at hkey hbody
      refine .inr ⟨fields, kind, body, rfl, hkey, hbody, ?_⟩
      simp only [ofMessage, hkind, ofField_of_lookup hbody]
  | _ => exact .inl ⟨_, rfl, reports_of_kind rfl, by simp⟩

theorem contextOf_of_not_object {fields : List (String × Message)} {c : Message}
    (hlookup : fields.lookup sourceKey = some c) (hc : ∀ inner, c ≠ .object inner) :
    contextOf fields = if c.isPresent then .error .contextNotObject else .ok none := by
  rw [contextOf, hlookup]
  cases c with
  | object inner => exact absurd rfl (hc inner)
  | _ => rfl

theorem contextOf_cases (fields : List (String × Message)) :
    (∃ source, contextOf fields = .ok source ∧
      ∀ c, fields.lookup sourceKey = some c → ReadsAsContext c) ∨
    contextOf fields = .error .contextNotObject ∧
      ∃ c, fields.lookup sourceKey = some c ∧ ¬ ReadsAsContext c := by
  cases hlookup : fields.lookup sourceKey with
  | none =>
    refine .inl ⟨none, ?_, by simp⟩
    rw [contextOf, hlookup]
  | some c =>
    by_cases hobject : ∃ inner, c = .object inner
    · obtain ⟨inner, rfl⟩ := hobject
      have hok : ∃ source, contextOf fields = .ok source := by
        rw [contextOf, hlookup]
        dsimp only
        split
        · exact ⟨none, rfl⟩
        · exact ⟨none, rfl⟩
        · exact ⟨_, rfl⟩
      obtain ⟨source, hsource⟩ := hok
      refine .inl ⟨source, hsource, ?_⟩
      rintro _ ⟨⟩
      exact .inr ⟨inner, rfl⟩
    · have heq := contextOf_of_not_object hlookup (not_exists.1 hobject)
      by_cases hpresent : c.isPresent = true
      · rw [if_pos hpresent] at heq
        refine .inr ⟨heq, c, rfl, ?_⟩
        rintro (habsent | hobject')
        · rw [hpresent] at habsent
          cases habsent
        · exact hobject hobject'
      · rw [if_neg hpresent] at heq
        refine .inl ⟨none, heq, ?_⟩
        rintro _ ⟨⟩
        exact .inl (Bool.eq_false_iff.2 hpresent)

theorem inside_ok_iff {α : Type} {x : Except MessageError α} {a : α} :
    inside x = .ok a ↔ x = .ok a :=
  mapError_ok_iff

theorem inside_error_iff {α : Type} {x : Except MessageError α} {e : MessageError} :
    inside x = .error (.inside e) ↔ x = .error e := by
  simp [inside, mapError_error_iff]

/-- The message describes a node. -/
def Decodes (m : Message) : Prop := ∃ n, ofMessage m = .ok n

variable {kind : BodyKind} {source : Source} {m : Message} {body : List (String × Message)}

theorem ofPart_of_none {name : String} (h : body.lookup name = none) :
    ofPart name body = .error (.missing name) := by
  rw [search_of_none (ofPart name) (fun m => inside (ofMessage m)) (fun _ _ _ => by rw [ofPart]) h,
    ofPart]

theorem ofArguments_of_none (h : body.lookup "positional_args" = none) :
    ofArguments body = .ok [] := by
  rw [search_of_none ofArguments ofItems (fun _ _ _ => by rw [ofArguments]) h, ofArguments]

theorem ofPart_ok_iff {name : String} :
    (∃ n, ofPart name body = .ok n) ↔ ∃ m, body.lookup name = some m ∧ Decodes m := by
  cases hm : body.lookup name with
  | none => simp [ofPart_of_none hm]
  | some m => simp [ofPart_of_lookup hm, inside_ok_iff, Decodes]

theorem ofMessages_ok_iff {items : List Message} :
    (∃ ns, ofMessages items = .ok ns) ↔ ∀ m ∈ items, Decodes m := by
  induction items with
  | nil => simp [ofMessages]
  | cons m ms ih =>
    simp only [List.forall_mem_cons, ← ih, ofMessages, bind_ok_iff]
    constructor
    · rintro ⟨_, n, hn, ns, hns, -⟩
      exact ⟨⟨n, hn⟩, ns, hns⟩
    · rintro ⟨⟨n, hn⟩, ns, hns⟩
      exact ⟨n :: ns, n, hn, ns, hns, rfl⟩

theorem ofItems_ok_iff : (∃ ns, ofItems m = .ok ns) ↔
    firstPart? m = some none ∨ ∃ items, m = .list items ∧ ∀ item ∈ items, Decodes item := by
  cases m with
  | list items => simp [ofItems, inside_ok_iff, ofMessages_ok_iff, firstPart?]
  | _ =>
    simp only [ofItems, reduceCtorEq, false_and, exists_false, or_false]
    split
    next hpart => simp [hpart]
    next hpart => simp [hpart]
    next hpart => simp [hpart]

theorem ofArguments_ok_iff : (∃ ns, ofArguments body = .ok ns) ↔
    ∀ a, body.lookup "positional_args" = some a →
      firstPart? a = some none ∨ ∃ items, a = .list items ∧ ∀ item ∈ items, Decodes item := by
  cases ha : body.lookup "positional_args" with
  | none => simp [ofArguments_of_none ha]
  | some a => simp [ofArguments_of_lookup ha, ofItems_ok_iff]

theorem ofBody_constant_ok_iff : (∃ n, ofBody .constant source (.object body) = .ok n) ↔
    ∃ value v, body.lookup "value" = some value ∧ Expr.ofMessage value = .ok v := by
  rw [ofBody]
  cases hvalue : body.lookup "value" with
  | none => simp
  | some value => simp [inside_ok_iff, map_ok_iff]

theorem ofBody_reference_ok_iff : (∃ n, ofBody .reference source (.object body) = .ok n) ↔
    ∃ symbol s, body.lookup "symbol" = some symbol ∧ Symbol.ofMessage symbol = .ok s := by
  rw [ofBody]
  cases hsymbol : body.lookup "symbol" with
  | none => simp
  | some symbol => simp [inside_ok_iff, map_ok_iff]

theorem ofBody_call_ok_iff : (∃ n, ofBody .call source (.object body) = .ok n) ↔
    (∃ ns, ofArguments body = .ok ns) ∧ ∃ n, ofPart "function" body = .ok n := by
  simp only [ofBody, bind_ok_iff]
  constructor
  · rintro ⟨_, ns, hns, n, hn, -⟩
    exact ⟨⟨ns, hns⟩, n, hn⟩
  · rintro ⟨⟨ns, hns⟩, n, hn⟩
    exact ⟨_, ns, hns, n, hn, rfl⟩

theorem ofBody_conditional_of_absent
    (h : ∀ a, body.lookup "else_expression" = some a → a = .null) :
    ofBody .conditional source (.object body) = (do
      let test ← ofPart "test" body
      let consequent ← ofPart "then_expression" body
      return .ifThen source test consequent) := by
  rw [ofBody]
  cases ha : body.lookup "else_expression" with
  | none => rfl
  | some a =>
    cases h a ha
    rfl

theorem ofBody_conditional_of_present {a : Message}
    (ha : body.lookup "else_expression" = some a) (hnull : a ≠ .null) :
    ofBody .conditional source (.object body) = (do
      let test ← ofPart "test" body
      let consequent ← ofPart "then_expression" body
      return .ifThenElse source test consequent (← ofPart "else_expression" body)) := by
  rw [ofBody, ha]
  cases a with
  | null => exact absurd rfl hnull
  | _ => rfl

theorem ofBody_conditional_ok_iff : (∃ n, ofBody .conditional source (.object body) = .ok n) ↔
    (∃ n, ofPart "test" body = .ok n) ∧ (∃ n, ofPart "then_expression" body = .ok n) ∧
      ∀ a, body.lookup "else_expression" = some a → a ≠ .null → Decodes a := by
  by_cases habsent : ∀ a, body.lookup "else_expression" = some a → a = .null
  · simp only [ofBody_conditional_of_absent habsent, bind_ok_iff]
    constructor
    · rintro ⟨_, t, ht, c, hc, -⟩
      exact ⟨⟨t, ht⟩, ⟨c, hc⟩, fun a ha hnull => absurd (habsent a ha) hnull⟩
    · rintro ⟨⟨t, ht⟩, ⟨c, hc⟩, -⟩
      exact ⟨_, t, ht, c, hc, rfl⟩
  · push Not at habsent
    obtain ⟨a, ha, hnull⟩ := habsent
    have helse : (∃ b, ofPart "else_expression" body = .ok b) ↔ Decodes a := by
      rw [ofPart_ok_iff, ha]
      simp
    simp only [ofBody_conditional_of_present ha hnull, bind_ok_iff]
    constructor
    · rintro ⟨_, t, ht, c, hc, b, hb, -⟩
      refine ⟨⟨t, ht⟩, ⟨c, hc⟩, ?_⟩
      rintro a' ha' -
      rw [ha] at ha'
      cases ha'
      exact helse.1 ⟨b, hb⟩
    · rintro ⟨⟨t, ht⟩, ⟨c, hc⟩, hdecodes⟩
      obtain ⟨b, hb⟩ := helse.2 (hdecodes a ha hnull)
      exact ⟨_, t, ht, c, hc, b, hb, rfl⟩

/-! ## What is accepted -/

theorem hasBody_of_decodes (h : Decodes m) : ∃ kind body source,
    HasBody ReadsAsContext kind m body ∧ ∃ n, ofBody kind source (.object body) = .ok n := by
  obtain ⟨n, hn⟩ := h
  obtain ⟨e, he, -⟩ | ⟨fields, kind, value, rfl, hkey, hvalue, heq⟩ := ofMessage_cases m
  · rw [he] at hn
    cases hn
  rw [heq, bind_ok_iff] at hn
  obtain ⟨source, hsource, hn⟩ := hn
  rw [mapError_ok_iff] at hn
  have hcontext : ∀ c, fields.lookup sourceKey = some c → ReadsAsContext c := by
    obtain ⟨-, -, hcontext⟩ | ⟨herror, -⟩ := contextOf_cases fields
    · exact hcontext
    · rw [hsource] at herror
      cases herror
  cases value with
  | object body => exact ⟨kind, body, source, ⟨hkey, hcontext, hvalue⟩, n, hn⟩
  | _ => cases hn

theorem decodes_of_hasBody (hm : HasBody ReadsAsContext kind m body)
    (h : ∀ source, ∃ n, ofBody kind source (.object body) = .ok n) : Decodes m := by
  obtain @⟨fields, _, hkey, hcontext, hbody⟩ := hm
  obtain ⟨e, -, -, hnone⟩ | ⟨_, kind', body', ⟨⟩, hkey', hbody', heq⟩ :=
    ofMessage_cases (.object fields)
  · exact absurd hkey (hnone fields kind rfl)
  have hname : kind'.name = kind.name := Option.some.inj (hkey'.symm.trans hkey)
  have hkind : kind' = kind := by
    have := kind'.ofName?_name
    rw [hname, kind.ofName?_name] at this
    exact (Option.some.inj this).symm
  subst hkind
  rw [hbody] at hbody'
  cases hbody'
  obtain ⟨source, hsource, -⟩ | ⟨-, c, hc, hforeign⟩ := contextOf_cases fields
  · obtain ⟨n, hn⟩ := h source
    refine ⟨n, ?_⟩
    rw [heq, hsource]
    exact mapError_ok_iff.2 hn
  · exact absurd (hcontext c hc) hforeign

theorem sizeOf_lt_of_hasBody {context : Message → Prop} {k : String} {part : Message}
    (hm : HasBody context kind m body) (hpart : body.lookup k = some part) :
    sizeOf part < sizeOf m := by
  obtain ⟨-, -, hbody⟩ := hm
  exact (Message.sizeOf_lt_of_lookup hpart).trans (Message.sizeOf_lt_of_lookup hbody)

theorem decodes_of_accepted (h : Accepted m) : Decodes m := by
  induction h with
  | constant hm hvalue hv =>
    exact decodes_of_hasBody hm fun _ => ofBody_constant_ok_iff.2 ⟨_, _, hvalue, hv⟩
  | reference hm hsymbol hs =>
    exact decodes_of_hasBody hm fun _ => ofBody_reference_ok_iff.2 ⟨_, _, hsymbol, hs⟩
  | call hm hfunction _ hargs _ ihf ihitems =>
    refine decodes_of_hasBody hm fun _ => ofBody_call_ok_iff.2 ⟨?_, ?_⟩
    · refine ofArguments_ok_iff.2 fun a ha => (hargs a ha).imp_right ?_
      rintro ⟨items, rfl⟩
      exact ⟨items, rfl, ihitems items ha⟩
    · exact ofPart_ok_iff.2 ⟨_, hfunction, ihf⟩
  | conditional hm htest _ hthen _ _ iht ihc ihelse =>
    refine decodes_of_hasBody hm fun _ => ofBody_conditional_ok_iff.2 ⟨?_, ?_, ihelse⟩
    · exact ofPart_ok_iff.2 ⟨_, htest, iht⟩
    · exact ofPart_ok_iff.2 ⟨_, hthen, ihc⟩

theorem accepted_of_decodes (h : Decodes m) : Accepted m := by
  induction hsize : sizeOf m using Nat.strong_induction_on generalizing m with
  | _ size ih =>
    subst hsize
    obtain ⟨kind, body, source, hm, hof⟩ := hasBody_of_decodes h
    have hpart : ∀ k part, body.lookup k = some part → Decodes part → Accepted part :=
      fun k part hk hd => ih _ (sizeOf_lt_of_hasBody hm hk) hd rfl
    cases kind with
    | constant =>
      obtain ⟨value, v, hvalue, hv⟩ := ofBody_constant_ok_iff.1 hof
      exact .constant hm hvalue hv
    | reference =>
      obtain ⟨symbol, s, hsymbol, hs⟩ := ofBody_reference_ok_iff.1 hof
      exact .reference hm hsymbol hs
    | call =>
      obtain ⟨hargs, hfunction⟩ := ofBody_call_ok_iff.1 hof
      obtain ⟨f, hf, hdecodes⟩ := ofPart_ok_iff.1 hfunction
      rw [ofArguments_ok_iff] at hargs
      refine .call hm hf (hpart _ f hf hdecodes) ?_ ?_
      · exact fun a ha => (hargs a ha).imp_right fun ⟨items, hitems, _⟩ => ⟨items, hitems⟩
      · intro items ha item hitem
        obtain hnone | ⟨_, ⟨⟩, hitems⟩ := hargs _ ha
        · cases hnone
        have hlt := (Message.sizeOf_lt_of_mem hitem).trans (sizeOf_lt_of_hasBody hm ha)
        exact ih _ hlt (hitems item hitem) rfl
    | conditional =>
      obtain ⟨htest, hthen, helse⟩ := ofBody_conditional_ok_iff.1 hof
      obtain ⟨t, ht, htdecodes⟩ := ofPart_ok_iff.1 htest
      obtain ⟨c, hc, hcdecodes⟩ := ofPart_ok_iff.1 hthen
      refine .conditional hm ht (hpart _ t ht htdecodes) hc (hpart _ c hc hcdecodes) ?_
      exact fun a ha hnull => hpart _ a ha (helse a ha hnull)

/-! ## How decoding fails -/

/-- The errors that a body reports as its own. -/
def Contained (m : Message) (e : MessageError) : Prop := Reports m e ∨ e = .contextNotObject

theorem reports_error {fault : BodyFault} (h : ∀ e, fault = .inside e → Contained m e) :
    Reports m (fault.error kind m) := by
  unfold BodyFault.error
  split
  · exact reports_of_kind rfl
  · exact reports_of_kind rfl
  · exact reports_of_kind rfl
  next e hforeign => exact (h e rfl).resolve_right hforeign

/-- The first part of what stands in place of a list can be written. -/
theorem kind_of_firstPart? {part : Message} (h : firstPart? m = some (some part)) :
    (MessageError.nodeNotObject part).kind = .wireFormat := by
  refine if_pos ?_
  cases m with
  | str s =>
    obtain ⟨c, -, rfl⟩ := Option.map_eq_some_iff.1 (Option.some.inj h)
    rfl
  | object fields =>
    obtain ⟨f, -, rfl⟩ := Option.map_eq_some_iff.1 (Option.some.inj h)
    rfl
  | bytes bs =>
    obtain ⟨b, -, rfl⟩ := Option.map_eq_some_iff.1 (Option.some.inj h)
    have hlt := b.toNat_lt
    have hbyte : IntKind.int32.contains (b.toNat : Int) = true := by
      rw [IntKind.contains, IntKind.min, IntKind.max, Bool.and_eq_true, decide_eq_true_eq,
        decide_eq_true_eq]
      omega
    exact DigitLimit.admitsInt_of_contains hbyte
  | _ => cases h

theorem ofPart_error {name : String} {e : MessageError}
    (h : ofPart name body = .error (.inside e)) :
    ∃ part, body.lookup name = some part ∧ ofMessage part = .error e := by
  cases hpart : body.lookup name with
  | none =>
    rw [ofPart_of_none hpart] at h
    cases h
  | some part =>
    rw [ofPart_of_lookup hpart, inside_error_iff] at h
    exact ⟨part, rfl, h⟩

theorem ofMessages_error {items : List Message} {e : MessageError}
    (h : ofMessages items = .error e) : ∃ item ∈ items, ofMessage item = .error e := by
  induction items with
  | nil => cases h
  | cons m ms ih =>
    rw [ofMessages] at h
    obtain hm | ⟨n, -, h⟩ := bind_error_iff.1 h
    · exact ⟨m, List.mem_cons_self, hm⟩
    obtain hms | ⟨ns, -, h⟩ := bind_error_iff.1 h
    · obtain ⟨item, hitem, he⟩ := ih hms
      exact ⟨item, List.mem_cons_of_mem m hitem, he⟩
    · cases h

theorem ofItems_error {e : MessageError} (h : ofItems m = .error (.inside e)) :
    e.kind = .wireFormat ∨
      ∃ items, m = .list items ∧ ∃ item ∈ items, ofMessage item = .error e := by
  unfold ofItems at h
  split at h
  next items =>
    rw [inside_error_iff] at h
    exact .inr ⟨items, rfl, ofMessages_error h⟩
  · split at h
    · cases h
    · cases h
    next hpart =>
      cases h
      exact .inl (kind_of_firstPart? hpart)

theorem Contained.of_part {part : Message} {e : MessageError} (h : Contained part e)
    (hpart : ∀ {P : Message → Prop}, m.Every P → part.Every P) : Contained m e :=
  h.imp_left fun h => h.of_part hpart

/-- The errors of all smaller messages are contained. -/
def ContainsBelow (m : Message) : Prop :=
  ∀ part, sizeOf part < sizeOf m → part.Every Message.FitsDouble →
    ∀ e, ofMessage part = .error e → Contained part e

theorem contained_ofPart {name : String} {e : MessageError}
    (hm : (Message.object body).Every Message.FitsDouble) (ih : ContainsBelow (.object body))
    (h : ofPart name body = .error (.inside e)) : Contained (.object body) e := by
  obtain ⟨part, hlookup, he⟩ := ofPart_error h
  have hcontained := ih part (Message.sizeOf_lt_of_lookup hlookup) (hm.of_lookup hlookup) e he
  exact hcontained.of_part fun hm => hm.of_lookup hlookup

theorem contained_ofArguments {e : MessageError}
    (hm : (Message.object body).Every Message.FitsDouble) (ih : ContainsBelow (.object body))
    (h : ofArguments body = .error (.inside e)) : Contained (.object body) e := by
  cases ha : body.lookup "positional_args" with
  | none =>
    rw [ofArguments_of_none ha] at h
    cases h
  | some a =>
    rw [ofArguments_of_lookup ha] at h
    obtain hkind | ⟨items, rfl, item, hitem, he⟩ := ofItems_error h
    · exact .inl (.inl hkind)
    have hlt := (Message.sizeOf_lt_of_mem hitem).trans (Message.sizeOf_lt_of_lookup ha)
    have hevery : ∀ {P : Message → Prop}, (Message.object body).Every P → item.Every P :=
      fun hm => (Message.every_list.1 (hm.of_lookup ha)).2 item hitem
    exact (ih item hlt (hevery hm) e he).of_part hevery

/-- Where the errors of all smaller messages are contained, so are those of a body. -/
theorem contained_ofBody {e : MessageError} (hm : m.Every Message.FitsDouble)
    (ih : ContainsBelow m) (h : ofBody kind source m = .error (.inside e)) : Contained m e := by
  cases m with
  | object body =>
    cases kind with
    | constant =>
      rw [ofBody] at h
      split at h
      · cases h
      next value hvalue =>
        rw [inside_error_iff, map_error_iff] at h
        refine .inl (Reports.of_part ?_ fun hm => hm.of_lookup hvalue)
        exact Expr.reports_ofMessage_of_fits (hm.of_lookup hvalue) h
    | reference =>
      rw [ofBody] at h
      split at h
      · cases h
      next symbol hsymbol =>
        rw [inside_error_iff, map_error_iff] at h
        exact .inl ((Symbol.reports_ofMessage h).of_part fun hm => hm.of_lookup hsymbol)
    | call =>
      rw [ofBody] at h
      obtain h | ⟨ns, -, h⟩ := bind_error_iff.1 h
      · exact contained_ofArguments hm ih h
      obtain h | ⟨n, -, h⟩ := bind_error_iff.1 h
      · exact contained_ofPart hm ih h
      · cases h
    | conditional =>
      by_cases habsent : ∀ a, body.lookup "else_expression" = some a → a = .null
      · rw [ofBody_conditional_of_absent habsent] at h
        obtain h | ⟨t, -, h⟩ := bind_error_iff.1 h
        · exact contained_ofPart hm ih h
        obtain h | ⟨c, -, h⟩ := bind_error_iff.1 h
        · exact contained_ofPart hm ih h
        · cases h
      · push Not at habsent
        obtain ⟨a, ha, hnull⟩ := habsent
        rw [ofBody_conditional_of_present ha hnull] at h
        obtain h | ⟨t, -, h⟩ := bind_error_iff.1 h
        · exact contained_ofPart hm ih h
        obtain h | ⟨c, -, h⟩ := bind_error_iff.1 h
        · exact contained_ofPart hm ih h
        obtain h | ⟨b, -, h⟩ := bind_error_iff.1 h
        · exact contained_ofPart hm ih h
        · cases h
  | _ => cases h

/-- An error of a node is one of the body, unless it is due to the source context of the node. -/
theorem ofMessage_error {e : MessageError} (hm : m.Every Message.FitsDouble)
    (h : ofMessage m = .error e) :
    Reports m e ∧ ¬ ForeignContext m ∨ e = .contextNotObject ∧ ForeignContext m := by
  induction hsize : sizeOf m using Nat.strong_induction_on generalizing m e with
  | _ size ih =>
    subst hsize
    obtain ⟨e', he, hkind, hnone⟩ | ⟨fields, kind, value, rfl, hkey, hvalue, heq⟩ :=
      ofMessage_cases m
    · rw [he] at h
      cases h
      refine .inl ⟨hkind, ?_⟩
      rintro ⟨hkey, -, -⟩
      exact hnone _ _ rfl hkey
    rw [heq] at h
    obtain ⟨source, hsource, hcontext⟩ | ⟨herror, c, hc, hforeign⟩ := contextOf_cases fields
    · rw [hsource] at h
      obtain ⟨fault, hof, rfl⟩ := mapError_error_iff.1 h
      left
      constructor
      · refine Reports.of_part (reports_error ?_) fun hm => hm.of_lookup hvalue
        rintro e rfl
        refine contained_ofBody (hm.of_lookup hvalue) ?_ hof
        intro part hlt hpart e he
        have hlt' := hlt.trans (Message.sizeOf_lt_of_lookup hvalue)
        exact (ih _ hlt' hpart he rfl).imp And.left And.left
      · rintro ⟨-, hc, hforeign⟩
        exact hforeign (hcontext _ hc)
    · rw [herror] at h
      cases h
      exact .inr ⟨rfl, hkey, hc, hforeign⟩

/-! ## The decoder and the grammar -/

theorem HasBody.mono {context context' : Message → Prop} (hcontext : ∀ c, context c → context' c)
    (h : HasBody context kind m body) : HasBody context' kind m body := by
  obtain ⟨hkey, hc, hbody⟩ := h
  exact ⟨hkey, fun c hlookup => hcontext c (hc c hlookup), hbody⟩

theorem InGrammar.mono {context context' arguments arguments' : Message → Prop}
    (hcontext : ∀ c, context c → context' c) (harguments : ∀ a, arguments a → arguments' a)
    (h : InGrammar context arguments m) : InGrammar context' arguments' m := by
  induction h with
  | constant hm hvalue hv => exact .constant (hm.mono hcontext) hvalue hv
  | reference hm hsymbol hs => exact .reference (hm.mono hcontext) hsymbol hs
  | call hm hfunction _ hargs _ ihf ihitems =>
    exact .call (hm.mono hcontext) hfunction ihf
      (fun a ha => (hargs a ha).imp_left (harguments a)) ihitems
  | conditional hm htest _ hthen _ _ iht ihc ihelse =>
    exact .conditional (hm.mono hcontext) htest iht hthen ihc ihelse

theorem accepted_of_grammar (h : Grammar m) : Accepted m := by
  refine InGrammar.mono ?_ (fun _ => False.elim) h
  rintro c (rfl | hobject)
  · exact .inl rfl
  · exact .inr hobject

/-- The messages of the grammar are decoded, and so are those with a source context that counts as
absent or with an empty text or object for arguments. The others are refused with an error of the
decoder, unless the source context of the outermost node is at fault, or the fault cannot be put
into words because an integer in the message is too long. -/
theorem ofMessage_grammar (m : Message) (hfits : m.Every Message.FitsDouble) :
    (Grammar m → Accepted m) ∧ ((∃ n, ofMessage m = .ok n) ↔ Accepted m) ∧
      ∀ e, ofMessage m = .error e →
        (¬ ForeignContext m →
          e.kind = .wireFormat ∨ e.kind = .value ∧ m.within .standard = false) ∧
        (ForeignContext m → e.kind = .attribute) := by
  refine ⟨accepted_of_grammar, ⟨accepted_of_decodes, decodes_of_accepted⟩, ?_⟩
  intro e he
  obtain ⟨hkind, hcontext⟩ | ⟨rfl, hcontext⟩ := ofMessage_error hfits he
  · exact ⟨fun _ => hkind, fun h => absurd h hcontext⟩
  · exact ⟨fun h => absurd hcontext h, fun _ => rfl⟩

/-- A call with an empty text for its arguments, a number for its function and zero for its source
context. -/
theorem ofMessage_grammar_call :
    let m : Message := .object [("source_context", .int 0), ("funcall", .object
      [("function", .object [("constant", .object [("value", .object [("double", .int 1)])])]),
        ("positional_args", .str "")])]
    Accepted m := by
  intro m
  have hfits : Binary.ofInt? .double 1 ≠ none := by decide +kernel
  have hm : m.Every Message.FitsDouble := by
    simp [m, Message.Every, Message.EveryField, Message.FitsDouble, hfits]
  have hok : (ofMessage m).isOk = true := by decide +kernel
  refine (ofMessage_grammar m hm).2.1.1 ?_
  cases hof : ofMessage m with
  | ok n => exact ⟨n, rfl⟩
  | error e =>
    rw [hof] at hok
    cases hok

/-- A source context that is a number is not reported as an error of the decoder. -/
theorem not_ofMessage_grammar :
    ¬ ∀ m : Message, m.Every Message.FitsDouble →
      ((∃ n, ofMessage m = .ok n) ↔ Grammar m) ∧
        ∀ e, ofMessage m = .error e → e.kind = .wireFormat := by
  intro h
  let m : Message := .object [("source_context", .int 5),
    ("variable", .object [("symbol", .object [("name", .str "x")])])]
  have hm : m.Every Message.FitsDouble := by
    simp [m, Message.Every, Message.EveryField, Message.FitsDouble]
  have he : ofMessage m = .error .contextNotObject := rfl
  exact absurd ((h m hm).2 _ he) (by decide)

end Formulary.Node
