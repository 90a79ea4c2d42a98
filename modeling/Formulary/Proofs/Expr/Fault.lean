import Formulary.Proofs.Expr.Message
import Formulary.Proofs.Message.Codec
import Formulary.Proofs.Message.Digits

/-!
# Faults in messages of expressions

A message that describes no expression has a first fault: a path of indices leads to it from list
to list, the elements in front of the path being sound. The error names the whole path. Two faults
are not reported in this way: an integer for which there is no double, and one that is too long to
be written, which no text of a message gets past the reader.
-/
namespace Formulary

open Message (sourceOf)

/-! ## Faults in words -/

namespace MessageError

/-- The error is one of the decoder, unless an integer in the message is too long to be written. -/
def Reports (m : Message) (e : MessageError) : Prop :=
  e.kind = .wireFormat ∨ e.kind = .value ∧ m.within .standard = false

variable {m part : Message} {e : MessageError}

theorem reports_of_kind
    (h : e.kind = if m.within .standard then .wireFormat else .value) : Reports m e := by
  split_ifs at h with hm
  · exact .inl h
  · exact .inr ⟨h, Bool.eq_false_iff.2 hm⟩

theorem Reports.of_part (h : Reports part e)
    (hpart : ∀ {P : Message → Prop}, m.Every P → part.Every P) : Reports m e := by
  refine h.imp_right (And.imp_right fun hlong => ?_)
  rw [Bool.eq_false_iff] at hlong ⊢
  exact fun hm => hlong (Message.within_iff.2 (hpart (Message.within_iff.1 hm)))

theorem Reports.kind (h : Reports m e) (hm : m.Every (Message.Admitted .standard)) :
    e.kind = .wireFormat := by
  refine h.resolve_right fun hlong => ?_
  rw [Message.within_iff.2 hm] at hlong
  cases hlong.2

theorem isWritable_of_kind (h : e.kind = .wireFormat) : e.isWritable = true := by
  unfold MessageError.kind at h
  split at h
  · cases h
  · cases h
  · cases h
  · split_ifs at h with hw
    exact hw

theorem atElement_of_wireFormat (index : Nat) (h : e.kind = .wireFormat) :
    e.atElement index = .inElement index e := by
  rw [atElement, h]
  rfl

theorem kind_inElement (index : Nat) (h : e.kind = .wireFormat) :
    (MessageError.inElement index e).kind = .wireFormat :=
  if_pos (isWritable_of_kind h)

/-- What is no error of the decoder is not placed. -/
theorem foldr_atElement_of_not_isOwn (path : List Nat) (h : e.kind.isOwn = false) :
    path.foldr atElement e = e := by
  induction path with
  | nil => rfl
  | cons index path ih => rw [List.foldr_cons, ih, atElement, h, if_neg (by decide)]

end MessageError

open MessageError (Reports reports_of_kind)

/-! ## Loading -/

namespace Message

theorem kind_decodeBytesItems {items : List Message} {e : MessageError}
    (hitems : ∀ m ∈ items, ∀ cause, m.decodeBytes = .error cause → cause.kind = .wireFormat)
    (h : decodeBytesItems items = .error e) : e.kind = .wireFormat := by
  induction items with
  | nil => cases h
  | cons m ms ih =>
    rw [List.forall_mem_cons] at hitems
    rw [decodeBytesItems, bind_error_iff] at h
    obtain hm | ⟨m', -, h⟩ := h
    · exact hitems.1 e hm
    obtain hms | ⟨ms', -, h⟩ := bind_error_iff.1 h
    · exact ih hitems.2 hms
    · cases h

theorem kind_decodeBytesFields {fields : List (String × Message)} {e : MessageError}
    (hfields : ∀ f ∈ fields, ∀ cause, f.2.decodeBytes = .error cause → cause.kind = .wireFormat)
    (h : decodeBytesFields fields = .error e) : e.kind = .wireFormat := by
  induction fields with
  | nil => cases h
  | cons f fs ih =>
    obtain ⟨k, m⟩ := f
    rw [List.forall_mem_cons] at hfields
    have hrest : ∀ m', (do let fs' ← decodeBytesFields fs; return (k, m') :: fs') =
        Except.error e → e.kind = .wireFormat := by
      intro m' h
      obtain hfs | ⟨fs', -, h⟩ := bind_error_iff.1 h
      · exact ih hfields.2 hfs
      · cases h
    unfold decodeBytesFields at h
    split at h
    · split at h
      · exact hrest _ h
      · cases h
        rfl
    · obtain hm | ⟨m', -, h⟩ := bind_error_iff.1 h
      · exact hfields.1 e hm
      · exact hrest m' h

theorem kind_decodeBytes {m : Message} {e : MessageError} (h : m.decodeBytes = .error e) :
    e.kind = .wireFormat := by
  induction m generalizing e with
  | leaf m hleaf =>
    cases m with
    | list items => cases hleaf
    | object fields => cases hleaf
    | _ => cases h
  | list items ih =>
    rw [decodeBytes, map_error_iff] at h
    exact kind_decodeBytesItems (fun m hm cause => ih m hm) h
  | object fields ih =>
    rw [decodeBytes, map_error_iff] at h
    exact kind_decodeBytesFields (fun f hf cause => ih f hf) h

/-- A text is refused by the decoder, unless an integer in it is too long. -/
theorem kind_load {text : String} {e : MessageError} (h : load text = .error e) :
    e.kind = .wireFormat ∨ e = .tooManyDigits ∧ LongRun .standard text.toList := by
  unfold load loadWithin at h
  split at h
  · cases h
    exact .inl rfl
  next hread =>
    cases h
    exact .inr ⟨rfl, longRun_of_read hread⟩
  · exact .inl (kind_decodeBytes h)
  · cases h
    exact .inl rfl

end Message

/-- Every integer under the key of a number has a double near it. -/
def Message.FitsDouble : Message → Prop
  | .object fields => ∀ f ∈ fields, f.1 = "float" ∨ f.1 = "double" →
      ∀ n, f.2 = .int n → Binary.ofInt? .double n ≠ none
  | _ => True

/-! ## Payloads -/

theorem Kind.name_of_ofName? {key : String} {kind : Kind} (h : Kind.ofName? key = some kind) :
    kind.name = key := by
  unfold ofName? at h
  have hname := List.find?_some h
  exact beq_iff_eq.1 hname

theorem Symbol.reports_ofMessage {m : Message} {e : MessageError}
    (h : Symbol.ofMessage m = .error e) : Reports m e := by
  unfold ofMessage at h
  split at h
  · split at h
    · cases h
    · cases h
      exact reports_of_kind rfl
  · cases h
    exact reports_of_kind rfl

theorem Atom.number_error {kind : Kind} {m : Message} {e : MessageError}
    (h : number kind m = .error e) :
    Reports m e ∨ e = .tooLarge ∧ ∃ n, m = .int n ∧ Binary.ofInt? .double n = none := by
  unfold number at h
  -- nothing here depends on how an integer is rounded, and the rounding is not to be evaluated
  obtain ⟨nearest?, hnearest⟩ : ∃ f, f = Binary.ofInt? .double := ⟨_, rfl⟩
  rw [← hnearest] at h ⊢
  split at h
  next n =>
    split at h
    · cases h
    next hn =>
      cases h
      exact .inr ⟨rfl, n, rfl, hn⟩
  · cases h
  · cases h
    exact .inl (reports_of_kind rfl)

theorem Atom.number_of_none {m : Message} {n : Int} (hm : m = .int n)
    (hn : Binary.ofInt? .double n = none) (kind : Kind) : number kind m = .error .tooLarge := by
  unfold number
  obtain ⟨nearest?, hnearest⟩ : ∃ f, f = Binary.ofInt? .double := ⟨_, rfl⟩
  rw [← hnearest] at hn ⊢
  subst hm
  simp only [hn]

/-- Only a number can be at fault without an error of its own. -/
theorem Atom.ofPayload_error {kind : Kind} {m : Message} {e : MessageError}
    (h : ofPayload kind m = .error e) :
    Reports m e ∨ e = .tooLarge ∧ (kind = .single ∨ kind = .double) ∧
      ∃ n, m = .int n ∧ Binary.ofInt? .double n = none := by
  cases kind with
  | bool | bytes | string =>
    cases m <;> cases h <;> exact .inl (reports_of_kind rfl)
  | int k =>
    cases m with
    | int n =>
      rw [ofPayload] at h
      split_ifs at h
      cases h
      exact .inl (reports_of_kind rfl)
    | _ =>
      cases h
      exact .inl (reports_of_kind rfl)
  | single =>
    rw [ofPayload, map_error_iff] at h
    exact (number_error h).imp_right (And.imp_right fun hn => ⟨.inl rfl, hn⟩)
  | double =>
    rw [ofPayload, map_error_iff] at h
    exact (number_error h).imp_right (And.imp_right fun hn => ⟨.inr rfl, hn⟩)
  | symbol =>
    rw [ofPayload, map_error_iff] at h
    exact .inl (Symbol.reports_ofMessage h)
  | list =>
    cases h
    exact .inl (reports_of_kind rfl)

namespace Expr

theorem ofMessage_of_soleKind? {fields : List (String × Message)} {kind : Kind}
    (h : soleKind? fields = some kind) :
    ∃ m, fields.lookup kind.name = some m ∧
      ofMessage (.object fields) = ofPayload kind (sourceOf fields) m := by
  obtain ⟨key, hsole, hkey⟩ := Option.bind_eq_some_iff.1 h
  obtain ⟨m, hm⟩ := Message.exists_lookup_of_soleKey? hsole
  rw [← Kind.name_of_ofName? hkey] at hm
  refine ⟨m, hm, ?_⟩
  simp only [ofMessage, h, ofField_of_lookup hm]

/-- The message is that of a list, with the given messages for its elements. -/
inductive ListMessage : Message → List Message → Prop
  | intro {fields body : List (String × Message)} {items : List Message}
    (hkind : soleKind? fields = some .list)
    (hbody : fields.lookup Kind.list.name = some (.object body))
    (hitems : body.lookup "elements" = some (.list items)) : ListMessage (.object fields) items

/-- An integer stands under the key of a number, and there is no double near it. -/
inductive Oversized : Message → Prop
  | intro {fields : List (String × Message)} {kind : Kind} {n : Int}
    (hkind : kind = .single ∨ kind = .double) (hsole : soleKind? fields = some kind)
    (hnumber : fields.lookup kind.name = some (.int n))
    (hlarge : Binary.ofInt? .double n = none) : Oversized (.object fields)

/-- The first fault of a message: the indices of the elements that lead to it from list to list,
the message that is at fault, and its error. -/
inductive FirstFault : Message → List Nat → Message → MessageError → Prop
  | here {m : Message} {e : MessageError} (hm : ∀ items, ¬ ListMessage m items)
    (he : ofMessage m = .error e) : FirstFault m [] m e
  | element {m item part : Message} {before after : List Message} {path : List Nat}
    {e : MessageError} (hm : ListMessage m (before ++ item :: after))
    (hbefore : ∀ m' ∈ before, ∃ v, ofMessage m' = .ok v)
    (hitem : FirstFault item path part e) : FirstFault m (before.length :: path) part e

theorem ofMessage_of_listMessage {m : Message} {items : List Message} (h : ListMessage m items) :
    ∃ source, ofMessage m = (ofMessages 0 items).map (.list source) := by
  obtain @⟨fields, body, _, hkind, hbody, hitems⟩ := h
  obtain ⟨payload, hpayload, hof⟩ := ofMessage_of_soleKind? hkind
  rw [hbody] at hpayload
  cases hpayload
  refine ⟨sourceOf fields, ?_⟩
  rw [hof, ofPayload, if_pos rfl, ofElements_of_lookup hitems, ofItems]

theorem sizeOf_lt_of_listMessage {m item : Message} {items : List Message}
    (h : ListMessage m items) (hitem : item ∈ items) : sizeOf item < sizeOf m := by
  obtain ⟨-, hbody, hitems⟩ := h
  have h₁ := Message.sizeOf_lt_of_mem hitem
  have h₂ := Message.sizeOf_lt_of_lookup hitems
  have h₃ := Message.sizeOf_lt_of_lookup hbody
  omega

/-- The elements are decoded up to the first one that is at fault. -/
theorem ofMessages_error {index : Nat} {items : List Message} {e : MessageError}
    (h : ofMessages index items = .error e) :
    ∃ before item after cause, items = before ++ item :: after ∧
      (∀ m ∈ before, ∃ v, ofMessage m = .ok v) ∧ ofMessage item = .error cause ∧
      e = cause.atElement (index + before.length) := by
  induction items generalizing index with
  | nil => cases h
  | cons m ms ih =>
    rw [ofMessages] at h
    split at h
    next cause hm =>
      cases h
      exact ⟨[], m, ms, cause, rfl, by simp, hm, rfl⟩
    next v hm =>
      rw [map_error_iff] at h
      obtain ⟨before, item, after, cause, rfl, hbefore, hitem, rfl⟩ := ih h
      refine ⟨m :: before, item, after, cause, rfl, ?_, hitem, ?_⟩
      · exact List.forall_mem_cons.2 ⟨⟨v, hm⟩, hbefore⟩
      · rw [List.length_cons, Nat.add_right_comm, Nat.add_assoc]

theorem ofPayload_error {kind : Kind} {source : Source} {m : Message} {e : MessageError}
    (hm : ∀ body items, kind = .list → m = .object body →
      body.lookup "elements" ≠ some (.list items))
    (h : ofPayload kind source m = .error e) :
    Reports m e ∨ e = .tooLarge ∧ (kind = .single ∨ kind = .double) ∧
      ∃ n, m = .int n ∧ Binary.ofInt? .double n = none := by
  cases m with
  | object body =>
    rw [ofPayload] at h
    split_ifs at h with hkind
    · rw [map_error_iff] at h
      left
      cases hitems : body.lookup "elements" with
      | none =>
        rw [ofElements_of_none hitems] at h
        cases h
      | some m =>
        rw [ofElements_of_lookup hitems] at h
        have hpart : Reports m e := by
          cases m with
          | list items => exact absurd hitems (hm body items hkind rfl)
          | _ =>
            cases h
            exact reports_of_kind rfl
        exact hpart.of_part fun hm => hm.of_lookup hitems
    · rw [map_error_iff] at h
      exact Atom.ofPayload_error h
  | _ =>
    simp only [ofPayload, map_error_iff] at h
    exact Atom.ofPayload_error h

/-- What is no list is itself at fault. -/
theorem ofMessage_error {m : Message} {e : MessageError} (hm : ∀ items, ¬ ListMessage m items)
    (h : ofMessage m = .error e) : Reports m e ∨ e = .tooLarge ∧ Oversized m := by
  cases m with
  | object fields =>
    cases hsole : soleKind? fields with
    | none =>
      simp only [ofMessage, hsole] at h
      cases h
      exact .inl (reports_of_kind rfl)
    | some kind =>
      obtain ⟨payload, hpayload, hof⟩ := ofMessage_of_soleKind? hsole
      rw [hof] at h
      refine (ofPayload_error ?_ h).imp (fun h => h.of_part fun hm => hm.of_lookup hpayload) ?_
      · rintro body items rfl rfl hitems
        exact hm items ⟨hsole, hpayload, hitems⟩
      · rintro ⟨rfl, hkind, n, rfl, hn⟩
        exact ⟨rfl, hkind, hsole, hpayload, hn⟩
  | _ =>
    cases h
    exact .inl (reports_of_kind rfl)

theorem ofMessage_of_oversized {m : Message} (h : Oversized m) :
    ofMessage m = .error .tooLarge := by
  obtain @⟨fields, kind, n, hkind, hsole, hnumber, hlarge⟩ := h
  obtain ⟨payload, hpayload, hof⟩ := ofMessage_of_soleKind? hsole
  rw [hnumber, Option.some.injEq] at hpayload
  have hleaf : payload.isLeaf = true := by
    rw [← hpayload]
    rfl
  rw [hof, ofPayload_leaf hleaf]
  rcases hkind with rfl | rfl
  · rw [Atom.ofPayload, Atom.number_of_none hpayload.symm hlarge]
    rfl
  · rw [Atom.ofPayload, Atom.number_of_none hpayload.symm hlarge]
    rfl

/-! ## The first fault -/

theorem firstFault_of_ofMessage {m : Message} {e : MessageError} (h : ofMessage m = .error e) :
    ∃ path part cause, FirstFault m path part cause ∧
      e = path.foldr MessageError.atElement cause := by
  induction hsize : sizeOf m using Nat.strong_induction_on generalizing m e with
  | _ size ih =>
    subst hsize
    by_cases hm : ∃ items, ListMessage m items
    · obtain ⟨items, hitems⟩ := hm
      obtain ⟨source, hof⟩ := ofMessage_of_listMessage hitems
      rw [hof, map_error_iff] at h
      obtain ⟨before, item, after, cause, rfl, hbefore, hitem, rfl⟩ := ofMessages_error h
      have hmem : item ∈ before ++ item :: after := by simp
      obtain ⟨path, part, cause', hfault, rfl⟩ :=
        ih _ (sizeOf_lt_of_listMessage hitems hmem) hitem rfl
      refine ⟨before.length :: path, part, cause', .element hitems hbefore hfault, ?_⟩
      rw [Nat.zero_add, List.foldr_cons]
    · exact ⟨[], m, e, .here (not_exists.1 hm) h, rfl⟩

theorem FirstFault.ofMessage_part {m part : Message} {path : List Nat} {e : MessageError}
    (h : FirstFault m path part e) :
    (∀ items, ¬ ListMessage part items) ∧ ofMessage part = .error e := by
  induction h with
  | here hm he => exact ⟨hm, he⟩
  | element _ _ _ ih => exact ih

theorem message_foldr_atElement {path : List Nat} {e : MessageError} (h : e.kind = .wireFormat) :
    (path.foldr MessageError.atElement e).kind = .wireFormat ∧
      (path.foldr MessageError.atElement e).message =
        path.foldr (fun index text => s!"error parsing list[{index}]: {text}") e.message := by
  induction path with
  | nil => exact ⟨h, rfl⟩
  | cons index path ih =>
    rw [List.foldr_cons, List.foldr_cons, ← ih.2, MessageError.atElement_of_wireFormat index ih.1]
    exact ⟨MessageError.kind_inElement index ih.1, rfl⟩

/-! ## Numbers that fit -/

theorem FirstFault.every {P : Message → Prop} {m part : Message} {path : List Nat}
    {e : MessageError} (h : FirstFault m path part e) (hm : m.Every P) : part.Every P := by
  induction h with
  | here => exact hm
  | element hlist _ _ ih =>
    obtain ⟨-, hbody, hitems⟩ := hlist
    have hevery := (hm.of_lookup hbody).of_lookup hitems
    exact ih ((Message.every_list.1 hevery).2 _ (by simp))

theorem not_oversized_of_fits {m : Message} (h : m.Every Message.FitsDouble) : ¬ Oversized m := by
  rintro ⟨hkind, -, hnumber, hlarge⟩
  refine (Message.every_object.1 h).1 _ (mem_of_lookup hnumber) ?_ _ rfl hlarge
  rcases hkind with rfl | rfl
  · exact .inl rfl
  · exact .inr rfl

theorem reports_ofMessage_of_fits {m : Message} {e : MessageError}
    (hm : m.Every Message.FitsDouble) (h : ofMessage m = .error e) : Reports m e := by
  obtain ⟨path, part, cause, hfault, rfl⟩ := firstFault_of_ofMessage h
  obtain ⟨hpart, hcause⟩ := hfault.ofMessage_part
  obtain hkind | ⟨-, hlarge⟩ := ofMessage_error hpart hcause
  · refine Reports.of_part ?_ hfault.every
    obtain hkind | ⟨hkind, hlong⟩ := hkind
    · exact .inl (message_foldr_atElement hkind).1
    · rw [MessageError.foldr_atElement_of_not_isOwn path (hkind ▸ rfl)]
      exact .inr ⟨hkind, hlong⟩
  · exact absurd hlarge (not_oversized_of_fits (hfault.every hm))

/-! ## Loading an expression -/

/-- A text is refused as such, or the first fault of its message is reported with the index of the
element at each list around it. There are two exceptions: an integer that is too long to be read,
and a number that is too large. -/
theorem load_error (text : String) (e : MessageError) (h : load text = .error e) :
    (Message.load text = .error e ∧
      (e.kind = .wireFormat ∨ e.kind = .value ∧ Message.LongRun .standard text.toList)) ∨
    ∃ m path part cause, Message.load text = .ok m ∧ FirstFault m path part cause ∧
      (¬ Oversized part → e.kind = .wireFormat ∧ e.message =
        path.foldr (fun index text => s!"error parsing list[{index}]: {text}") cause.message) ∧
      (Oversized part → e.kind = .overflow) := by
  obtain hload | ⟨m, hload, hof⟩ := bind_error_iff.1 h
  · refine .inl ⟨hload, (Message.kind_load hload).imp_right ?_⟩
    rintro ⟨rfl, hrun⟩
    exact ⟨rfl, hrun⟩
  right
  obtain ⟨path, part, cause, hfault, rfl⟩ := firstFault_of_ofMessage hof
  obtain ⟨hpart, hcause⟩ := hfault.ofMessage_part
  have hadmitted := hfault.every
    ((Message.loadable_of_load hload).2.imp fun _ => Message.Loadable.admitted)
  refine ⟨m, path, part, cause, hload, hfault, ?_, ?_⟩
  · intro hfits
    obtain hkind | ⟨-, hlarge⟩ := ofMessage_error hpart hcause
    · exact message_foldr_atElement (hkind.kind hadmitted)
    · exact absurd hlarge hfits
  · intro hlarge
    rw [ofMessage_of_oversized hlarge] at hcause
    cases hcause
    rw [MessageError.foldr_atElement_of_not_isOwn path rfl]
    rfl

/-- The second element of a list is a list whose first element is out of its range, and the error
has the index of both. -/
theorem load_error_nested :
    let inner := "\x7b\"list\": \x7b\"elements\": [\x7b\"int32\": 3000000000\x7d]\x7d\x7d"
    let text := "\x7b\"list\": \x7b\"elements\": [\x7b\"bool\": true\x7d, " ++ inner ++ "]\x7d\x7d"
    ∃ e, load text = .error e ∧
      e.message = "error parsing list[1]: error parsing list[0]: " ++
        "3000000000 out of range for int32 [-2147483648, 2147483647]" ∧
      ∃ m path part cause, Message.load text = .ok m ∧ FirstFault m path part cause ∧
        (¬ Oversized part → e.kind = .wireFormat ∧ e.message =
          path.foldr (fun index text => s!"error parsing list[{index}]: {text}") cause.message) ∧
        (Oversized part → e.kind = .overflow) := by
  intro inner text
  have hloads : (Message.load text).isOk = true := by decide +kernel
  have hmessage : ((load text).mapError (·.message)).map (fun _ => ()) =
      .error ("error parsing list[1]: error parsing list[0]: " ++
        "3000000000 out of range for int32 [-2147483648, 2147483647]") := by
    decide +kernel
  obtain ⟨e, hload, hmessage⟩ := mapError_error_iff.1 (map_error_iff.1 hmessage)
  refine ⟨e, hload, hmessage, ?_⟩
  obtain ⟨hrefused, -⟩ | hfault := load_error text e hload
  · rw [hrefused] at hloads
    cases hloads
  · exact hfault

/-- A one with 309 zeros is above the doubles, and decoding does not fail with an error of its own
there. -/
theorem not_load_error :
    ¬ ∀ (text : String) (e : MessageError), load text = .error e → e.kind = .wireFormat := by
  intro h
  let m : Message := .int (10 ^ 309)
  have hlarge : Binary.ofInt? .double (10 ^ 309) = none := by decide +kernel
  have hadmitted : DigitLimit.standard.admitsInt (10 ^ 309) = true := by decide +kernel
  have hloadable : (Message.object [("double", m)]).Every (Message.Loadable .standard) :=
    Message.loadable_envelope .bare (by decide) (by simp [m, Message.isBytes]) (by simp)
      (Message.loadable_leaf rfl hadmitted) (by simp)
  have hof : ofMessage (Message.object [("double", m)]).sorted = .error .tooLarge := by
    have henvelope := ofMessage_envelope Message.reorders_sorted .double m Source.textual_none
    rw [Message.sorted_leaf (m := m) rfl, ofPayload_leaf rfl, Atom.ofPayload,
      Atom.number_of_none rfl hlarge] at henvelope
    exact henvelope
  have hload : load ((Message.object [("double", m)]).write none) = .error .tooLarge := by
    rw [load, Message.load, Message.load_write none hloadable]
    exact hof
  exact absurd (h _ _ hload) (by decide)

end Expr

end Formulary
