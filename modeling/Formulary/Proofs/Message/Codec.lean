import Formulary.Proofs.Message.Load

/-!
# Messages as text and back

Whatever a text holds, loading it gives a message in which no key is set twice, and in which byte
strings stand under the key `bytes` only, and no strings do. These are the messages that are
loaded again from their own text, with no more than the order of their fields changed.
-/
namespace Formulary.Message

/-! ## Messages up to the order of their fields -/

/-- The fields of some objects stand in another order, at any depth. -/
inductive Reordered : Message → Message → Prop where
  | refl (m : Message) : Reordered m m
  | trans {a b c : Message} (hab : Reordered a b) (hbc : Reordered b c) : Reordered a c
  | fields {fs gs : List (String × Message)} (h : fs.Perm gs) : Reordered (.object fs) (.object gs)
  | item {m m' : Message} (before after : List Message) (h : Reordered m m') :
      Reordered (.list (before ++ m :: after)) (.list (before ++ m' :: after))
  | field {m m' : Message} (before after : List (String × Message)) (key : String)
      (h : Reordered m m') :
      Reordered (.object (before ++ (key, m) :: after)) (.object (before ++ (key, m') :: after))

/-- Parts can be changed all at once if each of them can be changed. -/
theorem Reordered.map {α : Type} {whole : List α → Message} {g : α → α} {parts : List α}
    (h : ∀ part ∈ parts, ∀ before after,
      Reordered (whole (before ++ part :: after)) (whole (before ++ g part :: after))) :
    Reordered (whole parts) (whole (parts.map g)) := by
  -- the parts in front have been changed already
  suffices hall : ∀ before, Reordered (whole (before ++ parts)) (whole (before ++ parts.map g)) from
    hall []
  induction parts with
  | nil => exact fun before => .refl _
  | cons part parts ih =>
    rw [List.forall_mem_cons] at h
    intro before
    have hrest := ih h.2 (before ++ [g part])
    rw [List.append_assoc, List.append_assoc, List.singleton_append, List.singleton_append] at hrest
    exact (h.1 before parts).trans hrest

theorem reordered_sorted (m : Message) : Reordered m m.sorted := by
  induction m with
  | leaf m hm =>
    rw [sorted_leaf hm]
    exact .refl m
  | list items ih =>
    rw [sorted_list]
    exact .map fun m hm before after => .item before after (ih m hm)
  | object fields ih =>
    rw [sorted_object, sortedFields]
    refine .trans (.fields (sortByKey_perm fields).symm) (.map fun f hf before after => ?_)
    exact .field before after f.1 (ih f ((sortByKey_perm fields).subset hf))

theorem write_sorted (m : Message) (spread : Spread) : m.sorted.write spread = m.write spread := by
  have hsame : writeOnto spread 0 m.sorted = writeOnto spread 0 m :=
    writeOnto_ordered spread (fun _ _ _ => rfl) m 0
  rw [write, hsame, write]

/-! ## What reading gives -/

/-- As a text holds it: no key is set twice, byte strings are still text, and integers keep the
limit of digits. -/
structure Textual (limit : DigitLimit) (m : Message) : Prop where
  distinctKeys : m.DistinctKeys
  isBytes : m.isBytes = false
  admitted : m.Admitted limit

variable {limit : DigitLimit}

theorem nodup_setField {fields : List (String × Message)} (h : (fields.map Prod.fst).Nodup)
    (key : String) (m : Message) : ((setField fields key m).map Prod.fst).Nodup := by
  unfold setField
  split_ifs with hany
  · have hkeys : (fields.map fun f => if f.1 == key then (key, m) else f).map Prod.fst =
        fields.map Prod.fst := by
      rw [List.map_map]
      refine List.map_congr_left fun f _ => ?_
      by_cases hkey : f.1 = key <;> simp [hkey]
    rw [hkeys]
    exact h
  · rw [List.map_append, List.nodup_append]
    refine ⟨h, List.nodup_singleton key, ?_⟩
    rintro k hk _ hkey rfl
    rw [List.mem_singleton.1 hkey] at hk
    obtain ⟨f, hf, hname⟩ := List.mem_map.1 hk
    exact hany (List.any_eq_true.2 ⟨f, hf, beq_iff_eq.2 hname⟩)

theorem forall_mem_setField {P : Message → Prop} {fields : List (String × Message)}
    (h : ∀ f ∈ fields, P f.2) {m : Message} (hm : P m) (key : String) :
    ∀ f ∈ setField fields key m, P f.2 := by
  unfold setField
  split_ifs
  · rw [List.forall_mem_map]
    intro f hf
    split_ifs
    · exact hm
    · exact h f hf
  · intro f hf
    rcases List.mem_append.1 hf with hf | hf
    · exact h f hf
    · rw [List.mem_singleton.1 hf]
      exact hm

/-- Fields that are set one after the other have distinct keys. -/
theorem textual_setFields {fields : List (String × Message)}
    (h : ∀ f ∈ fields, f.2.Every (Textual limit)) :
    (Message.object (fields.foldl (fun fs f => setField fs f.1 f.2) [])).Every (Textual limit) := by
  suffices hall : ∀ done : List (String × Message), (done.map Prod.fst).Nodup →
      (∀ f ∈ done, f.2.Every (Textual limit)) →
      (Message.object (fields.foldl (fun fs f => setField fs f.1 f.2) done)).Every
        (Textual limit) from
    hall [] List.nodup_nil (by simp)
  induction fields with
  | nil => exact fun done hkeys hdone => every_object.2 ⟨⟨hkeys, rfl, trivial⟩, hdone⟩
  | cons f fields ih =>
    rw [List.forall_mem_cons] at h
    intro done hkeys hdone
    exact ih h.2 _ (nodup_setField hkeys f.1 f.2) (forall_mem_setField hdone h.1 f.1)

theorem textual_leaf {m : Message} (h : m.isLeaf = true) (hb : m.isBytes = false)
    (hadmitted : m.Admitted limit) : m.Every (Textual limit) := by
  rw [every_leaf h]
  cases m with
  | list items => cases h
  | object fields => cases h
  | _ => exact ⟨trivial, hb, hadmitted⟩

theorem isDigit_wholeDigits (cs : List Char) : ∀ c ∈ wholeDigits cs, c.isDigit = true := by
  unfold wholeDigits
  split
  · exact List.forall_mem_singleton.2 rfl
  · exact fun c hc => List.mem_takeWhile_imp hc

/-- An integer has no more digits than were read, which may begin with zeros. -/
theorem admitsInt_of_admits {ds : List Char} (hne : ds ≠ []) (hds : ∀ c ∈ ds, c.isDigit = true)
    (h : limit.admits ds = true) {n : Int} (hn : n.natAbs = Nat.ofDigitChars 10 ds 0) :
    limit.admitsInt n = true := by
  have hlength : (Nat.toDigits 10 n.natAbs).length ≤ ds.length := by
    rw [hn, Nat.length_toDigits_le_iff (by omega) (List.length_pos_iff.2 hne)]
    exact Text.ofDigitChars_lt hds
  cases limit with
  | none => rfl
  | some k => exact decide_eq_true (hlength.trans (of_decide_eq_true h))

theorem textual_readNumber {negative : Bool} {cs r : List Char} {m : Message}
    (h : readNumber limit negative cs = .ok (m, r)) : m.Every (Textual limit) := by
  have hinteger : ∀ n : Int, ¬ (wholeDigits cs).isEmpty = true →
      limit.admits (wholeDigits cs) = true →
      n.natAbs = Nat.ofDigitChars 10 (wholeDigits cs) 0 →
        (Message.int n).Every (Textual limit) := by
    intro n hempty hadmits hn
    have hne : wholeDigits cs ≠ [] := by simpa using hempty
    exact textual_leaf rfl rfl (admitsInt_of_admits hne (isDigit_wholeDigits cs) hadmits hn)
  unfold readNumber at h
  dsimp only at h
  split_ifs at h with hempty hwhole hadmits
  · cases h
    rw [Bool.and_eq_true, List.isEmpty_iff] at hwhole
    rw [hwhole.1, List.append_nil]
    exact hinteger _ hempty hadmits (by omega)
  · cases h
    rw [Bool.and_eq_true, List.isEmpty_iff] at hwhole
    rw [hwhole.1, List.append_nil]
    exact hinteger _ hempty hadmits (by omega)
  · cases h
    exact textual_leaf rfl rfl trivial

theorem textual_readWord {cs r : List Char} {m : Message}
    (h : readWord limit cs = .ok (m, r)) : m.Every (Textual limit) := by
  unfold readWord at h
  split at h
  case h_7 => exact textual_readNumber h
  case h_8 => exact textual_readNumber h
  all_goals
    cases h
    exact textual_leaf rfl rfl trivial

/-- What the readers of values, of items and of fields give with so much fuel. -/
structure ReadsTextual (limit : DigitLimit) (fuel : Nat) : Prop where
  value : ∀ {cs r m}, readValue limit fuel cs = .ok (m, r) → m.Every (Textual limit)
  items : ∀ {cs r items}, readItems limit fuel cs = .ok (items, r) →
    ∀ m ∈ items, m.Every (Textual limit)
  fields : ∀ {cs r fields}, readFields limit fuel cs = .ok (fields, r) →
    ∀ f ∈ fields, f.2.Every (Textual limit)

theorem textual_readValue {fuel : Nat} (h : ReadsTextual limit fuel) {cs r : List Char}
    {m : Message}
    (hread : readValue limit (fuel + 1) cs = .ok (m, r)) : m.Every (Textual limit) := by
  unfold readValue at hread
  split at hread
  · cases hread
  · obtain ⟨⟨s, r'⟩, -, hm⟩ := map_ok_iff.1 hread
    cases hm
    exact textual_leaf rfl rfl trivial
  next hfuel =>
    cases hfuel
    split at hread
    · cases hread
      exact every_list.2 ⟨⟨trivial, rfl, trivial⟩, by simp⟩
    · obtain ⟨⟨items, r'⟩, hitems, hm⟩ := map_ok_iff.1 hread
      cases hm
      exact every_list.2 ⟨⟨trivial, rfl, trivial⟩, h.items hitems⟩
  next hfuel =>
    cases hfuel
    split at hread
    · cases hread
      exact every_object.2 ⟨⟨List.nodup_nil, rfl, trivial⟩, by simp⟩
    · obtain ⟨⟨fields, r'⟩, hfields, hm⟩ := map_ok_iff.1 hread
      cases hm
      exact textual_setFields (h.fields hfields)
  · exact textual_readWord hread

theorem textual_readItems {fuel : Nat} (h : ReadsTextual limit fuel) {cs r : List Char}
    {items : List Message} (hread : readItems limit (fuel + 1) cs = .ok (items, r)) :
    ∀ m ∈ items, m.Every (Textual limit) := by
  unfold readItems at hread
  obtain ⟨⟨m, r'⟩, hm, hread⟩ := bind_ok_iff.1 hread
  dsimp only at hread
  split at hread
  · cases hread
    exact List.forall_mem_singleton.2 (h.value hm)
  · obtain ⟨⟨ms, r''⟩, hms, hread⟩ := bind_ok_iff.1 hread
    cases hread
    exact List.forall_mem_cons.2 ⟨h.value hm, h.items hms⟩
  · cases hread

theorem textual_readFields {fuel : Nat} (h : ReadsTextual limit fuel) {cs r : List Char}
    {fields : List (String × Message)} (hread : readFields limit (fuel + 1) cs = .ok (fields, r)) :
    ∀ f ∈ fields, f.2.Every (Textual limit) := by
  unfold readFields at hread
  split at hread
  · cases hread
  next hfuel =>
    cases hfuel
    obtain ⟨⟨k, r₁⟩, -, hread⟩ := bind_ok_iff.1 hread
    dsimp only at hread
    split at hread
    · obtain ⟨⟨m, r₂⟩, hm, hread⟩ := bind_ok_iff.1 hread
      dsimp only at hread
      split at hread
      · cases hread
        exact List.forall_mem_singleton.2 (h.value hm)
      · obtain ⟨⟨fs, r₃⟩, hfs, hread⟩ := bind_ok_iff.1 hread
        cases hread
        exact List.forall_mem_cons.2 ⟨h.value hm, h.fields hfs⟩
      · cases hread
    · cases hread
  · cases hread

theorem readsTextual (fuel : Nat) : ReadsTextual limit fuel := by
  induction fuel with
  | zero => constructor <;> intro _ _ _ h <;> cases h
  | succ fuel ih => exact ⟨textual_readValue ih, textual_readItems ih, textual_readFields ih⟩

theorem textual_read {cs : List Char} {m : Message} (h : read limit cs = .ok m) :
    m.Every (Textual limit) := by
  unfold read at h
  obtain ⟨⟨m', r⟩, hread, h⟩ := bind_ok_iff.1 h
  dsimp only at h
  split_ifs at h
  cases h
  exact (readsTextual _).value hread

/-! ## What loading gives -/

theorem isBytes_decodeBytes {m m' : Message} (h : m.decodeBytes = .ok m') :
    m'.isBytes = m.isBytes ∧ m'.isString = m.isString := by
  cases m with
  | list items =>
    rw [decodeBytes] at h
    obtain ⟨items', -, rfl⟩ := map_ok_iff.1 h
    exact ⟨rfl, rfl⟩
  | object fields =>
    rw [decodeBytes] at h
    obtain ⟨fields', -, rfl⟩ := map_ok_iff.1 h
    exact ⟨rfl, rfl⟩
  | _ =>
    cases h
    exact ⟨rfl, rfl⟩

/-- Decoding the message gives one that is loaded as it was, and no byte string. -/
def DecodesWell (limit : DigitLimit) (m : Message) : Prop :=
  m.isBytes = false ∧ ∀ m', m.decodeBytes = .ok m' → m'.Every (Loadable limit)

theorem loadable_decodeBytesItems {items items' : List Message}
    (hitems : ∀ m ∈ items, m.DecodesWell limit) (h : decodeBytesItems items = .ok items') :
    ∀ m ∈ items', m.isBytes = false ∧ m.Every (Loadable limit) := by
  induction items generalizing items' with
  | nil =>
    cases h
    simp
  | cons m ms ih =>
    rw [List.forall_mem_cons] at hitems
    rw [decodeBytesItems] at h
    obtain ⟨m', hm', h⟩ := bind_ok_iff.1 h
    obtain ⟨ms', hms', h⟩ := bind_ok_iff.1 h
    cases h
    refine List.forall_mem_cons.2 ⟨⟨?_, hitems.1.2 m' hm'⟩, ih hitems.2 hms'⟩
    rw [(isBytes_decodeBytes hm').1]
    exact hitems.1.1

theorem loadable_decodeBytesFields {fields fields' : List (String × Message)}
    (hfields : ∀ f ∈ fields, f.2.DecodesWell limit) (h : decodeBytesFields fields = .ok fields') :
    fields'.map Prod.fst = fields.map Prod.fst ∧ (Message.object fields').Keyed ∧
      ∀ f ∈ fields', f.2.Every (Loadable limit) := by
  induction fields generalizing fields' with
  | nil =>
    cases h
    exact ⟨rfl, by simp [Keyed], by simp⟩
  | cons f fs ih =>
    obtain ⟨k, m⟩ := f
    rw [List.forall_mem_cons] at hfields
    -- the first field is decoded to some message, and the others go on as they are
    have hrest : ∀ m', (m'.isBytes = true → k = "bytes") ∧ (k = "bytes" → m'.isString = false) →
        m'.Every (Loadable limit) → (do let fs' ← decodeBytesFields fs; return (k, m') :: fs') =
          Except.ok fields' →
        fields'.map Prod.fst = k :: fs.map Prod.fst ∧ (Message.object fields').Keyed ∧
          ∀ f ∈ fields', f.2.Every (Loadable limit) := by
      intro m' hkeyed hm' h
      obtain ⟨fs', hfs', h⟩ := bind_ok_iff.1 h
      cases h
      obtain ⟨hkeys, hkeyed', hloadable⟩ := ih hfields.2 hfs'
      refine ⟨by rw [List.map_cons, hkeys], ?_, List.forall_mem_cons.2 ⟨hm', hloadable⟩⟩
      exact List.forall_mem_cons.2 ⟨hkeyed, hkeyed'⟩
    have hbytes : ∀ bs, (Message.bytes bs).Every (Loadable limit) :=
      fun _ => loadable_leaf rfl trivial
    unfold decodeBytesFields at h
    split at h
    next hk =>
      split at h
      · exact hrest _ ⟨fun _ => beq_iff_eq.1 hk, fun _ => rfl⟩ (hbytes _) h
      · cases h
    next m _ _ hnot =>
      obtain ⟨m', hm', h⟩ := bind_ok_iff.1 h
      obtain ⟨hbytes, hstring⟩ := isBytes_decodeBytes hm'
      refine hrest m' ⟨fun hb => ?_, fun hk => ?_⟩ (hfields.1.2 m' hm') h
      · rw [hbytes, hfields.1.1] at hb
        cases hb
      · rw [hstring]
        cases m with
        | str s => exact absurd rfl (hnot s (beq_iff_eq.2 hk))
        | _ => rfl

theorem decodesWell_of_textual {m : Message} (h : m.Every (Textual limit)) :
    m.DecodesWell limit := by
  induction m with
  | leaf m hleaf =>
    have htextual := (every_leaf hleaf).1 h
    refine ⟨htextual.isBytes, fun m' hm' => ?_⟩
    cases m with
    | list items => cases hleaf
    | object fields => cases hleaf
    | _ =>
      cases hm'
      exact loadable_leaf rfl htextual.admitted
  | list items ih =>
    rw [every_list] at h
    refine ⟨rfl, fun m' hm' => ?_⟩
    rw [decodeBytes] at hm'
    obtain ⟨items', hitems', rfl⟩ := map_ok_iff.1 hm'
    have hall := loadable_decodeBytesItems (fun m hm => ih m hm (h.2 m hm)) hitems'
    exact loadable_list (fun m hm => (hall m hm).1) fun m hm => (hall m hm).2
  | object fields ih =>
    rw [every_object] at h
    refine ⟨rfl, fun m' hm' => ?_⟩
    rw [decodeBytes] at hm'
    obtain ⟨fields', hfields', rfl⟩ := map_ok_iff.1 hm'
    obtain ⟨hkeys, hkeyed, hloadable⟩ :=
      loadable_decodeBytesFields (fun f hf => ih f hf (h.2 f hf)) hfields'
    refine every_object.2 ⟨⟨?_, hkeyed, trivial⟩, hloadable⟩
    rw [DistinctKeys, hkeys]
    exact h.1.distinctKeys

theorem loadable_of_load {text : String} {m : Message} (h : loadWithin limit text = .ok m) :
    (∃ fields, m = .object fields) ∧ m.Every (Loadable limit) := by
  unfold loadWithin at h
  split at h
  · cases h
  · cases h
  next fields hread =>
    refine ⟨?_, (decodesWell_of_textual (textual_read hread)).2 m h⟩
    rw [decodeBytes] at h
    obtain ⟨fields', -, rfl⟩ := map_ok_iff.1 h
    exact ⟨fields', rfl⟩
  · cases h

/-- The text of a message is loaded as the message, but for the order of fields, however it is
spread over lines. So any text that is loaded can be replaced by the text of its message, which is
loaded as the same message and then has the same text again. This holds with any limit of digits
that the integers of the message keep, and without one. -/
theorem load_write_reordered (limit : DigitLimit) (spread : Spread) :
    (∀ fields, (Message.object fields).Every (Loadable limit) →
      ∃ m, loadWithin limit ((Message.object fields).write spread) = .ok m ∧
        Reordered (.object fields) m) ∧
    ∀ text m, loadWithin limit text = .ok m →
      ∃ m', loadWithin limit (m.write spread) = .ok m' ∧ Reordered m m' ∧
        m'.write spread = m.write spread := by
  constructor
  · intro fields h
    exact ⟨_, load_write spread h, reordered_sorted _⟩
  · intro text m h
    obtain ⟨⟨fields, rfl⟩, hloadable⟩ := loadable_of_load h
    exact ⟨_, load_write spread hloadable, reordered_sorted _, write_sorted _ spread⟩

theorem load_write_reordered_nested :
    let fields : List (String × Message) := [("b", .list [.object [("bytes", .bytes [0, 255])],
      .double .nan]), ("a", .object [("\x22", .str "𝔸"), ("", .null)])]
    let text := "\x7b\"b\": \x7b\"bytes\": \"AP8=\"\x7d, \"a\": 1, \"a\": [true]\x7d"
    (Message.object fields).Every (Loadable none) ∧
    (∃ m, loadWithin none ((Message.object fields).write (some 2)) = .ok m ∧
      Reordered (.object fields) m) ∧
    ∃ m, load text = .ok m ∧ ∃ m', load (m.write (some 2)) = .ok m' ∧ Reordered m m' ∧
      m'.write (some 2) = m.write (some 2) := by
  intro fields text
  have hloadable : (Message.object fields).Every (Loadable none) := by
    have hleaf : ∀ m : Message, m.isLeaf = true → m.Every (Loadable none) := by
      intro m hm
      refine loadable_leaf hm ?_
      cases m <;> trivial
    have hbytes : (Message.object [("bytes", .bytes [0, 255])]).Every (Loadable none) :=
      loadable_envelope .bare (by decide) (fun _ => rfl) (fun _ => rfl) (hleaf _ rfl) (by simp)
    have hlist : (Message.list [.object [("bytes", .bytes [0, 255])], .double .nan]).Every
        (Loadable none) :=
      loadable_list (by simp [isBytes]) (by simpa [hbytes] using hleaf _ rfl)
    have hinner : (Message.object [("\x22", .str "𝔸"), ("", .null)]).Every (Loadable none) :=
      loadable_object (by decide) (by simp [isBytes])
        (by simpa using ⟨hleaf _ rfl, hleaf _ rfl⟩)
    exact loadable_object (by decide) (by simp [fields, isBytes]) (by simp [fields, hlist, hinner])
  have hok : (load text).isOk = true := by decide +kernel
  refine ⟨hloadable, (load_write_reordered none (some 2)).1 fields hloadable, ?_⟩
  cases hload : load text with
  | error e =>
    rw [hload] at hok
    cases hok
  | ok m => exact ⟨m, rfl, (load_write_reordered .standard (some 2)).2 text m hload⟩

end Formulary.Message
