import Formulary.Proofs.Message.Basic
import Formulary.Proofs.Message.Leaf

/-!
# Documents that are read back

A written value is read as the message it was written from, in front of any text that ends a
value. The induction is on the message: a leaf is one word or string, and the parts of a list or
an object are read one after the other up to the closing bracket. The reader spends fuel on every
level, and what a piece adds to the text is always enough.
-/
namespace Formulary.Message

open Text (Piece separated Stops stops_nil stops_cons dropWhile_run)

/-- The characters that cannot start a value: white space and the end of a list. -/
def isSkipped (c : Char) : Bool := isSpace c || c == ']'

/-- The piece is a written value, and it is read as the message. The length that the piece adds to
a text is fuel enough. -/
structure ReadsAs (limit : DigitLimit) (piece : Piece) (m : Message) : Prop where
  starts : ∀ rest, Stops isSkipped (piece rest)
  grows : ∀ rest, rest.length < (piece rest).length
  reads : ∀ {rest : List Char} {fuel : Nat}, Ends rest → (piece rest).length ≤ fuel + rest.length →
    readValue limit fuel (piece rest) = .ok (m, rest)

variable {limit : DigitLimit}

/-! ## White space -/

/-- White space between the parts of a document. -/
def IsGap (gap : List Char) : Prop := ∀ c ∈ gap, isSpace c = true

theorem isGap_nil : IsGap [] := by simp [IsGap]

theorem isGap_lineBreak (width level : Nat) : IsGap (lineBreak width level) := by
  intro c hc
  rcases List.mem_cons.1 hc with rfl | hc
  · rfl
  · rw [List.eq_of_mem_replicate hc]
    rfl

theorem skipSpace_gap {gap cs : List Char} (hgap : IsGap gap) (h : Stops isSpace cs) :
    skipSpace (gap ++ cs) = cs :=
  dropWhile_run hgap h

theorem ends_gap {gap : List Char} (hgap : IsGap gap) {c : Char} (hc : isEnd c = true)
    (rest : List Char) : Ends (gap ++ c :: rest) := by
  cases gap with
  | nil => exact ends_cons.2 hc
  | cons d ds =>
    rw [List.cons_append, ends_cons, isEnd, hgap d List.mem_cons_self]
    rfl

theorem stops_isSpace {cs : List Char} (h : Stops isSkipped cs) : Stops isSpace cs := by
  intro c hc
  have hskip := h c hc
  rw [isSkipped, Bool.or_eq_false_iff] at hskip
  exact hskip.1

/-- A bracket with something inside is one character, the parts set off by commas, and the other
character, with white space between. -/
theorem bracket_eq (spread : Spread) (level : Nat) (opening closing : Char) {parts : List Piece}
    (hne : parts ≠ []) :
    ∃ first sep last, IsGap first ∧ IsGap sep ∧ IsGap last ∧
      ∀ rest, bracket spread level opening closing parts rest =
        opening :: (first ++ separated (',' :: sep) parts (last ++ closing :: rest)) := by
  obtain ⟨part, parts, rfl⟩ := List.exists_cons_of_ne_nil hne
  cases spread with
  | none =>
    refine ⟨[], [' '], [], isGap_nil, ?_, isGap_nil, fun rest => rfl⟩
    intro c hc
    rw [List.mem_singleton.1 hc]
    rfl
  | some width =>
    exact ⟨lineBreak width (level + 1), lineBreak width (level + 1), lineBreak width level,
      isGap_lineBreak _ _, isGap_lineBreak _ _, isGap_lineBreak _ _, fun rest => rfl⟩

theorem separated_cons_cons (sep : List Char) (part next : Piece) (parts : List Piece)
    (rest : List Char) :
    separated sep (part :: next :: parts) rest = part (sep ++ separated sep (next :: parts) rest) :=
  rfl

theorem length_lt_separated (sep : List Char) {parts : List Piece} (hne : parts ≠ [])
    (h : ∀ part ∈ parts, ∀ rest, rest.length < (part rest).length) (rest : List Char) :
    rest.length < (separated sep parts rest).length := by
  induction parts with
  | nil => exact absurd rfl hne
  | cons part parts ih =>
    rw [List.forall_mem_cons] at h
    cases parts with
    | nil => exact h.1 rest
    | cons next parts =>
      have hpart := h.1 (sep ++ separated sep (next :: parts) rest)
      have htail := ih (List.cons_ne_nil _ _) h.2
      rw [List.length_append] at hpart
      rw [separated_cons_cons]
      omega

theorem stops_separated {p : Char → Bool} (sep : List Char) {parts : List Piece} (hne : parts ≠ [])
    (h : ∀ part ∈ parts, ∀ rest, Stops p (part rest)) (rest : List Char) :
    Stops p (separated sep parts rest) := by
  obtain ⟨part, parts, rfl⟩ := List.exists_cons_of_ne_nil hne
  have hpart := h part List.mem_cons_self
  cases parts with
  | nil => exact hpart rest
  | cons next parts => exact hpart _

/-! ## Brackets

Lists and objects are read in the same way: a reader of parts takes the last part together with
the closing bracket, and any other part together with the comma after it. -/

section Brackets

variable {α : Type} {read : Nat → List Char → Except ReadFault (List α × List Char)}
  {write : α → Piece} {xs : List α} {closing : Char} {sep last rest : List Char}

/-- The parts are read up to the closing bracket, if one part is read in front of the bracket and
in front of other parts. -/
theorem read_separated (hne : xs ≠ [])
    (hgrows : ∀ x ∈ xs, ∀ rest, rest.length < (write x rest).length)
    (hstarts : ∀ x ∈ xs, ∀ rest, Stops isSpace (write x rest))
    (hlast : ∀ x ∈ xs, ∀ fuel, (write x (last ++ closing :: rest)).length ≤ fuel + rest.length →
      read fuel (write x (last ++ closing :: rest)) = .ok ([x], rest))
    (hnext : ∀ x ∈ xs, ∀ tail ys, Stops isSpace tail → rest.length < tail.length →
      (∀ fuel, tail.length ≤ fuel + rest.length → read fuel tail = .ok (ys, rest)) →
      ∀ fuel, (write x (',' :: sep ++ tail)).length ≤ fuel + rest.length →
        read fuel (write x (',' :: sep ++ tail)) = .ok (x :: ys, rest))
    (fuel : Nat) (hfuel : (separated (',' :: sep) (xs.map write) (last ++ closing :: rest)).length ≤
      fuel + rest.length) :
    read fuel (separated (',' :: sep) (xs.map write) (last ++ closing :: rest)) =
      .ok (xs, rest) := by
  induction xs generalizing fuel with
  | nil => exact absurd rfl hne
  | cons x xs ih =>
    rw [List.forall_mem_cons] at hgrows hstarts hlast hnext
    cases xs with
    | nil => exact hlast.1 fuel hfuel
    | cons y xs =>
      have hne' : (y :: xs).map write ≠ [] := by simp
      have htail := length_lt_separated (',' :: sep) hne' (List.forall_mem_map.2 hgrows.2)
        (last ++ closing :: rest)
      rw [List.length_append, List.length_cons] at htail
      exact hnext.1 _ _ (stops_separated _ hne' (List.forall_mem_map.2 hstarts.2) _) (by omega)
        (ih (List.cons_ne_nil _ _) hgrows.2 hstarts.2 hlast.2 hnext.2) fuel hfuel

/-- Parts between brackets are read as a message, if they are so behind any white space. -/
theorem readsAs_bracket (spread : Spread) (level : Nat) {opening closing : Char}
    (hopening : isSkipped opening = false) {m : Message} (hne : xs ≠ [])
    (hgrows : ∀ x ∈ xs, ∀ rest, rest.length < (write x rest).length)
    (hread : ∀ {first sep last rest : List Char} {fuel : Nat}, IsGap first → IsGap sep →
      IsGap last →
      (separated (',' :: sep) (xs.map write) (last ++ closing :: rest)).length ≤
        fuel + rest.length →
      readValue limit (fuel + 1)
        (opening :: (first ++ separated (',' :: sep) (xs.map write) (last ++ closing :: rest))) =
          .ok (m, rest)) :
    ReadsAs limit (bracket spread level opening closing (xs.map write)) m := by
  have hparts : xs.map write ≠ [] := by simp [hne]
  obtain ⟨first, sep, last, hfirst, hsep, hlast, heq⟩ :=
    bracket_eq spread level opening closing hparts
  have hinner : ∀ rest, rest.length + 1 <
      (separated (',' :: sep) (xs.map write) (last ++ closing :: rest)).length := by
    intro rest
    have h := length_lt_separated (',' :: sep) hparts (List.forall_mem_map.2 hgrows)
      (last ++ closing :: rest)
    rw [List.length_append, List.length_cons] at h
    omega
  refine ⟨fun rest => ?_, fun rest => ?_, fun {rest fuel} _ hfuel => ?_⟩
  · rw [heq]
    exact stops_cons.2 hopening
  · have h := hinner rest
    rw [heq, List.length_cons, List.length_append]
    omega
  · have h := hinner rest
    rw [heq, List.length_cons, List.length_append] at hfuel
    cases fuel with
    | zero => omega
    | succ fuel =>
      rw [heq]
      exact hread hfirst hsep hlast (by omega)

theorem readsAs_bracket_nil (spread : Spread) (level : Nat) {opening closing : Char}
    (hopening : isSkipped opening = false) {m : Message}
    (hread : ∀ fuel rest,
      readValue limit (fuel + 1) (opening :: closing :: rest) = .ok (m, rest)) :
    ReadsAs limit (bracket spread level opening closing []) m := by
  refine ⟨fun rest => stops_cons.2 hopening, fun rest => ?_, fun {rest fuel} _ hfuel => ?_⟩
  · simp only [bracket, List.length_cons]
    omega
  · simp only [bracket, List.length_cons] at hfuel ⊢
    cases fuel with
    | zero => omega
    | succ fuel => exact hread fuel rest

end Brackets

/-! ## Lists -/

section Lists

variable {sep last rest : List Char} {fuel : Nat} {piece : Piece} {m : Message}

theorem readItems_last (h : ReadsAs limit piece m) (hlast : IsGap last)
    (hfuel : (piece (last ++ ']' :: rest)).length ≤ fuel + rest.length) :
    readItems limit fuel (piece (last ++ ']' :: rest)) = .ok ([m], rest) := by
  have hgrows := h.grows (last ++ ']' :: rest)
  rw [List.length_append, List.length_cons] at hgrows
  cases fuel with
  | zero => omega
  | succ fuel =>
    have hread : readValue limit fuel (piece (last ++ ']' :: rest)) =
        .ok (m, last ++ ']' :: rest) := by
      apply h.reads (ends_gap hlast rfl rest)
      rw [List.length_append, List.length_cons]
      omega
    have hclose : skipSpace (last ++ ']' :: rest) = ']' :: rest :=
      skipSpace_gap hlast (stops_cons.2 rfl)
    simp only [readItems, hread, ok_bind, hclose]

theorem readItems_next (h : ReadsAs limit piece m) (hsep : IsGap sep) {tail : List Char}
    {items : List Message} (hstops : Stops isSpace tail) (htail : rest.length < tail.length)
    (hitems : ∀ fuel, tail.length ≤ fuel + rest.length →
      readItems limit fuel tail = .ok (items, rest))
    (hfuel : (piece (',' :: sep ++ tail)).length ≤ fuel + rest.length) :
    readItems limit fuel (piece (',' :: sep ++ tail)) = .ok (m :: items, rest) := by
  have hgrows := h.grows (',' :: sep ++ tail)
  rw [List.length_append, List.length_cons] at hgrows
  cases fuel with
  | zero => omega
  | succ fuel =>
    have hread : readValue limit fuel (piece (',' :: sep ++ tail)) =
        .ok (m, ',' :: sep ++ tail) := by
      refine h.reads (ends_cons.2 rfl) ?_
      rw [List.length_append, List.length_cons]
      omega
    have hcomma : skipSpace (',' :: sep ++ tail) = ',' :: (sep ++ tail) :=
      skipSpace_gap isGap_nil (stops_cons.2 rfl)
    simp only [readItems, hread, ok_bind, hcomma, skipSpace_gap hsep hstops,
      hitems fuel (by omega)]

theorem readsAs_list (spread : Spread) (level : Nat) {write : Message → Piece}
    {items : List Message} (h : ∀ m ∈ items, ReadsAs limit (write m) m) :
    ReadsAs limit (bracket spread level '[' ']' (items.map write)) (.list items) := by
  by_cases hne : items = []
  · subst hne
    exact readsAs_bracket_nil spread level rfl fun _ _ => rfl
  · have hgrows : ∀ m ∈ items, ∀ rest, rest.length < (write m rest).length :=
      fun m hm => (h m hm).grows
    refine readsAs_bracket spread level rfl hne hgrows
      fun {first sep last rest fuel} hfirst hsep hlast hfuel => ?_
    have hparts : items.map write ≠ [] := by simp [hne]
    have hstarts := stops_separated (',' :: sep) hparts
      (List.forall_mem_map.2 fun m hm => (h m hm).starts) (last ++ ']' :: rest)
    have hitems := read_separated hne hgrows
      (fun m hm rest => stops_isSpace ((h m hm).starts rest))
      (fun m hm fuel => readItems_last (h m hm) hlast)
      (fun m hm tail ys hs ht hy fuel => readItems_next (h m hm) hsep hs ht hy) fuel hfuel
    rw [readValue, skipSpace_gap hfirst (stops_isSpace hstarts)]
    split
    next r hr =>
      rw [hr] at hstarts
      cases stops_cons.1 hstarts
    next => rw [hitems, ok_map]

end Lists

/-! ## Objects -/

section Objects

variable {key : String} {sep last rest : List Char} {fuel : Nat} {piece : Piece} {m : Message}

theorem writeField_eq (key : String) (piece : Piece) (rest : List Char) :
    writeField (key, piece) rest =
      '\x22' :: (key.toList.flatMap writeChar ++ '\x22' :: ':' :: ' ' :: piece rest) := by
  simp [writeField, writeString]

theorem length_lt_writeField (h : ReadsAs limit piece m) (rest : List Char) :
    rest.length < (writeField (key, piece) rest).length := by
  have hgrows := h.grows rest
  simp only [writeField_eq, List.length_cons, List.length_append]
  omega

theorem skipSpace_value (h : ReadsAs limit piece m) (rest : List Char) :
    skipSpace (' ' :: piece rest) = piece rest := by
  have hblank : IsGap [' '] := by simp [IsGap, isSpace]
  exact skipSpace_gap hblank (stops_isSpace (h.starts rest))

theorem skipSpace_colon (rest : List Char) : skipSpace (':' :: rest) = ':' :: rest :=
  skipSpace_gap isGap_nil (stops_cons.2 rfl)

theorem readFields_last (h : ReadsAs limit piece m) (hlast : IsGap last)
    (hfuel : (writeField (key, piece) (last ++ '\x7d' :: rest)).length ≤ fuel + rest.length) :
    readFields limit fuel (writeField (key, piece) (last ++ '\x7d' :: rest)) =
      .ok ([(key, m)], rest) := by
  have hgrows := h.grows (last ++ '\x7d' :: rest)
  rw [List.length_append, List.length_cons] at hgrows
  rw [writeField_eq, List.length_cons, List.length_append, List.length_cons, List.length_cons,
    List.length_cons] at hfuel
  cases fuel with
  | zero => omega
  | succ fuel =>
    have hread : readValue limit fuel (piece (last ++ '\x7d' :: rest)) =
        .ok (m, last ++ '\x7d' :: rest) := by
      apply h.reads (ends_gap hlast rfl rest)
      rw [List.length_append, List.length_cons]
      omega
    have hclose : skipSpace (last ++ '\x7d' :: rest) = '\x7d' :: rest :=
      skipSpace_gap hlast (stops_cons.2 rfl)
    simp only [writeField_eq, readFields, readText_flatMap, ok_bind,
      skipSpace_colon, skipSpace_value h, hread, hclose, String.ofList_toList]

theorem readFields_next (h : ReadsAs limit piece m) (hsep : IsGap sep) {tail : List Char}
    {fields : List (String × Message)} (hstops : Stops isSpace tail)
    (htail : rest.length < tail.length)
    (hfields : ∀ fuel, tail.length ≤ fuel + rest.length →
      readFields limit fuel tail = .ok (fields, rest))
    (hfuel : (writeField (key, piece) (',' :: sep ++ tail)).length ≤ fuel + rest.length) :
    readFields limit fuel (writeField (key, piece) (',' :: sep ++ tail)) =
      .ok ((key, m) :: fields, rest) := by
  have hgrows := h.grows (',' :: sep ++ tail)
  rw [List.length_append, List.length_cons] at hgrows
  rw [writeField_eq, List.length_cons, List.length_append, List.length_cons, List.length_cons,
    List.length_cons] at hfuel
  cases fuel with
  | zero => omega
  | succ fuel =>
    have hread : readValue limit fuel (piece (',' :: sep ++ tail)) =
        .ok (m, ',' :: sep ++ tail) := by
      refine h.reads (ends_cons.2 rfl) ?_
      rw [List.length_append, List.length_cons]
      omega
    have hcomma : skipSpace (',' :: sep ++ tail) = ',' :: (sep ++ tail) :=
      skipSpace_gap isGap_nil (stops_cons.2 rfl)
    simp only [writeField_eq, readFields, readText_flatMap, ok_bind,
      skipSpace_colon, skipSpace_value h, hread, hcomma, skipSpace_gap hsep hstops,
      hfields fuel (by omega), String.ofList_toList]

/-- Fields whose keys are distinct are set one after the other. -/
theorem foldl_setField {fields : List (String × Message)} (h : (fields.map Prod.fst).Nodup) :
    fields.foldl (fun fs f => setField fs f.1 f.2) [] = fields := by
  suffices hall : ∀ done : List (String × Message), ((done ++ fields).map Prod.fst).Nodup →
      fields.foldl (fun fs f => setField fs f.1 f.2) done = done ++ fields from
    hall [] h
  clear h
  induction fields with
  | nil => intro done _; rw [List.foldl_nil, List.append_nil]
  | cons f fields ih =>
    intro done h
    have hnew : done.any (·.1 == f.1) = false := by
      rw [List.map_append, List.map_cons] at h
      rw [List.any_eq_false]
      intro g hg heq
      rw [beq_iff_eq] at heq
      exact (List.nodup_append.1 h).2.2 g.1 (List.mem_map_of_mem hg) f.1 List.mem_cons_self heq
    have hset : setField done f.1 f.2 = done ++ [f] := by
      rw [setField, hnew]
      rfl
    rw [List.foldl_cons, hset, ih, List.append_assoc, List.singleton_append]
    rwa [List.append_assoc, List.singleton_append]

theorem readsAs_object (spread : Spread) (level : Nat) {write : Message → Piece}
    {fields : List (String × Message)} (hkeys : (fields.map Prod.fst).Nodup)
    (h : ∀ f ∈ fields, ReadsAs limit (write f.2) f.2) :
    ReadsAs limit
      (bracket spread level '\x7b' '\x7d' (fields.map fun f => writeField (f.1, write f.2)))
      (.object fields) := by
  by_cases hne : fields = []
  · subst hne
    exact readsAs_bracket_nil spread level rfl fun _ _ => rfl
  · have hgrows : ∀ f ∈ fields, ∀ rest, rest.length < (writeField (f.1, write f.2) rest).length :=
      fun f hf => length_lt_writeField (h f hf)
    have hstarts : ∀ p : Char → Bool, p '\x22' = false →
        ∀ f ∈ fields, ∀ rest, Stops p (writeField (f.1, write f.2) rest) := by
      intro p hp f hf rest
      rw [writeField_eq, stops_cons]
      exact hp
    refine readsAs_bracket spread level rfl hne hgrows
      fun {first sep last rest fuel} hfirst hsep hlast hfuel => ?_
    have hparts : (fields.map fun f => writeField (f.1, write f.2)) ≠ [] := by simp [hne]
    have hquote : ∀ p : Char → Bool, p '\x22' = false → Stops p (separated (',' :: sep)
        (fields.map fun f => writeField (f.1, write f.2)) (last ++ '\x7d' :: rest)) :=
      fun p hp => stops_separated _ hparts (List.forall_mem_map.2 (hstarts p hp)) _
    have hfields : readFields limit fuel (separated (',' :: sep)
        (fields.map fun f => writeField (f.1, write f.2)) (last ++ '\x7d' :: rest)) =
          .ok (fields, rest) := by
      refine read_separated hne hgrows (hstarts _ rfl) ?_ ?_ fuel hfuel
      · exact fun f hf fuel hfuel => readFields_last (h f hf) hlast hfuel
      · exact fun f hf tail ys hs ht hy fuel hfuel =>
          readFields_next (h f hf) hsep hs ht hy hfuel
    have hclose := hquote (· == '\x7d') rfl
    rw [readValue, skipSpace_gap hfirst (hquote _ rfl)]
    split
    next r hr =>
      rw [hr] at hclose
      cases stops_cons.1 hclose
    next => simp only [hfields, ok_map, foldl_setField hkeys]

end Objects

/-! ## Leaves -/

/-- The characters with which a value starts that is neither a string nor in brackets. -/
def isWordStart (c : Char) : Bool :=
  !isSkipped c && c != '\x22' && c != '[' && c != '\x7b'

theorem readValue_of_isWordStart {c : Char} (h : isWordStart c = true) (fuel : Nat)
    (cs : List Char) : readValue limit (fuel + 1) (c :: cs) = readWord limit (c :: cs) := by
  simp only [isWordStart, Bool.and_eq_true, bne_iff_ne] at h
  obtain ⟨⟨⟨-, hquote⟩, hlist⟩, hobject⟩ := h
  rw [readValue]
  · rintro rest heq
    exact hquote (List.cons.inj heq).1
  · rintro rest heq
    exact hlist (List.cons.inj heq).1
  · rintro rest heq
    exact hobject (List.cons.inj heq).1

theorem readsAs_word {cs : List Char} {m : Message} (hstart : cs.head?.any isWordStart = true)
    (h : ∀ rest, Ends rest → readWord limit (cs ++ rest) = .ok (m, rest)) :
    ReadsAs limit (fun rest => cs ++ rest) m := by
  cases cs with
  | nil => cases hstart
  | cons c cs =>
    rw [List.head?_cons, Option.any_some] at hstart
    have hskip : isSkipped c = false := by
      simp only [isWordStart, Bool.and_eq_true, Bool.not_eq_true'] at hstart
      exact hstart.1.1.1
    refine ⟨fun rest => stops_cons.2 hskip, fun rest => ?_, fun {rest fuel} hends hfuel => ?_⟩
    · simp only [List.length_append, List.length_cons]
      omega
    · simp only [List.length_append, List.length_cons] at hfuel
      cases fuel with
      | zero => omega
      | succ fuel => exact (readValue_of_isWordStart hstart fuel _).trans (h rest hends)

theorem readsAs_string (cs : List Char) :
    ReadsAs limit (fun rest => writeString cs ++ rest) (.str (String.ofList cs)) := by
  have heq : ∀ rest, writeString cs ++ rest =
      '\x22' :: (cs.flatMap writeChar ++ '\x22' :: rest) := by
    intro rest
    simp [writeString]
  refine ⟨fun rest => stops_cons.2 rfl, fun rest => ?_, fun {rest fuel} _ hfuel => ?_⟩
  · simp only [heq, List.length_append, List.length_cons]
    omega
  · simp only [heq, List.length_append, List.length_cons] at hfuel
    cases fuel with
    | zero => omega
    | succ fuel => simp only [heq, readValue, readText_flatMap, ok_map]

theorem isWordStart_of_isNumberChar {c : Char} (h : Numeral.isNumberChar c = true) :
    isWordStart c = true := by
  have hne : ∀ d, Numeral.isNumberChar d = false → c ≠ d := by
    rintro d hd rfl
    rw [h] at hd
    cases hd
  simp [isWordStart, isSkipped, isSpace, hne ' ' rfl, hne '\t' rfl, hne '\n' rfl, hne '\r' rfl,
    hne ']' rfl, hne '\x22' rfl, hne '[' rfl, hne '\x7b' rfl]

theorem readsAs_parts (p : Numeral.Parts) {m : Message}
    (h : ∀ rest, Ends rest → readWord limit (p.chars ++ rest) = .ok (m, rest)) :
    ReadsAs limit (fun rest => p.chars ++ rest) m := by
  refine readsAs_word ?_ h
  obtain ⟨c, cs, hcs⟩ := List.exists_cons_of_ne_nil p.chars_ne_nil
  rw [hcs, List.head?_cons, Option.any_some]
  refine isWordStart_of_isNumberChar (p.isNumberChar_chars c ?_)
  rw [hcs]
  exact List.mem_cons_self

theorem readsAs_double (x : Double) :
    ReadsAs limit (fun rest => Layout.json.byValue x ++ rest) (.double x) := by
  cases x with
  | nan => exact readsAs_word rfl fun rest h => readWord_double .nan h
  | infinity s => cases s <;> exact readsAs_word rfl fun rest h => readWord_double _ h
  | finite s r =>
    obtain ⟨p, hchars, _⟩ := exists_parts_json s r
    rw [← hchars]
    apply readsAs_parts p
    intro rest h
    rw [hchars]
    exact readWord_double _ h

theorem readsAs_leaf {m : Message} (h : m.isLeaf = true) (hbytes : ∀ bs, m ≠ .bytes bs)
    (hadmitted : m.Admitted limit) :
    ReadsAs limit (fun rest => writeLeaf m ++ rest) m := by
  cases m with
  | list items => cases h
  | object fields => cases h
  | bytes bs => exact absurd rfl (hbytes bs)
  | null => exact readsAs_word rfl fun rest _ => rfl
  | bool b => cases b <;> exact readsAs_word rfl fun rest _ => rfl
  | int n =>
    rw [writeLeaf, ← Numeral.Parts.chars_ofInt]
    apply readsAs_parts
    intro rest h
    rw [Numeral.Parts.chars_ofInt]
    exact readWord_intText hadmitted h
  | double x => exact readsAs_double x
  | str s =>
    have hs : ReadsAs limit _ _ := readsAs_string s.toList
    rwa [String.ofList_toList] at hs

/-! ## Documents -/

variable {spread : Spread} {level : Nat}

theorem writeOnto_leaf {m : Message} (h : m.isLeaf = true) :
    writeOnto spread level m = fun rest => writeLeaf m ++ rest := by
  cases m with
  | list items => cases h
  | object fields => cases h
  | _ => simp only [writeOnto]

theorem writeItems_eq (items : List Message) :
    writeItems spread level items = items.map (writeOnto spread level) := by
  induction items with
  | nil => rfl
  | cons m items ih => rw [writeItems, ih, List.map_cons]

theorem writeFields_eq (fields : List (String × Message)) :
    writeFields spread level fields = fields.map fun f => (f.1, writeOnto spread level f.2) := by
  induction fields with
  | nil => rfl
  | cons f fields ih => rw [writeFields, ih, List.map_cons]

theorem writeOnto_list (items : List Message) :
    writeOnto spread level (.list items) =
      bracket spread level '[' ']' (items.map (writeOnto spread (level + 1))) := by
  rw [writeOnto, writeItems_eq]

theorem writeOnto_object (fields : List (String × Message)) :
    writeOnto spread level (.object fields) = bracket spread level '\x7b' '\x7d'
      ((sortFields (fields.map fun f => (f.1, writeOnto spread (level + 1) f.2))).map
        writeField) := by
  rw [writeOnto, writeFields_eq]

/-- A message as a document holds it: without byte strings, and with the fields of an object in
the order of their keys, which are distinct. Its integers keep the limit of digits. -/
def Canonical (limit : DigitLimit) : Message → Prop
  | .bytes _ => False
  | .int n => limit.admitsInt n = true
  | .object fields => (fields.Pairwise fun f g => f.1 ≤ g.1) ∧ (fields.map Prod.fst).Nodup
  | _ => True

theorem sortFields_map {α : Type} (write : α → Piece) {fields : List (String × α)}
    (h : fields.Pairwise fun f g => f.1 ≤ g.1) :
    sortFields (fields.map fun f => (f.1, write f.2)) = fields.map fun f => (f.1, write f.2) := by
  apply List.mergeSort_of_pairwise
  rw [List.pairwise_map]
  exact h.imp fun hle => decide_eq_true hle

theorem readsAs_writeOnto (spread : Spread) {m : Message} (h : m.Every (Canonical limit))
    (level : Nat) :
    ReadsAs limit (writeOnto spread level m) m := by
  induction m generalizing level with
  | leaf m hm =>
    rw [every_leaf hm] at h
    rw [writeOnto_leaf hm]
    apply readsAs_leaf hm
    · rintro bs rfl
      exact h
    · cases m with
      | int n => exact h
      | _ => trivial
  | list items ih =>
    rw [every_list] at h
    rw [writeOnto_list]
    exact readsAs_list spread level fun m hm => ih m hm (h.2 m hm) (level + 1)
  | object fields ih =>
    rw [every_object] at h
    obtain ⟨⟨hsorted, hkeys⟩, hfields⟩ := h
    rw [writeOnto_object, sortFields_map _ hsorted, List.map_map]
    exact readsAs_object spread level hkeys fun f hf => ih f hf (hfields f hf) (level + 1)

/-! ## White space at the end -/

/-- The piece puts the same characters in front of any text. -/
def Prepends (piece : Piece) : Prop := ∀ rest, piece rest = piece [] ++ rest

theorem prepends_separated (sep : List Char) {parts : List Piece}
    (h : ∀ part ∈ parts, Prepends part) : Prepends (separated sep parts) := by
  induction parts with
  | nil => exact fun _ => rfl
  | cons part parts ih =>
    rw [List.forall_mem_cons] at h
    cases parts with
    | nil => exact h.1
    | cons next parts =>
      intro rest
      rw [separated_cons_cons, separated_cons_cons, h.1, ih h.2 rest,
        h.1 (sep ++ separated sep (next :: parts) [])]
      simp only [List.append_assoc]

theorem prepends_bracket (spread : Spread) (level : Nat) (opening closing : Char)
    {parts : List Piece} (h : ∀ part ∈ parts, Prepends part) :
    Prepends (bracket spread level opening closing parts) := by
  by_cases hne : parts = []
  · rw [hne]
    exact fun _ => rfl
  · obtain ⟨first, sep, last, -, -, -, hbracket⟩ :=
      bracket_eq spread level opening closing hne
    intro rest
    rw [hbracket, hbracket, prepends_separated _ h (last ++ closing :: rest),
      prepends_separated _ h (last ++ [closing])]
    simp

theorem prepends_writeField {field : String × Piece} (h : Prepends field.2) :
    Prepends (writeField field) := by
  intro rest
  rw [writeField, writeField, h rest]
  simp

theorem prepends_writeOnto (spread : Spread) (level : Nat) (m : Message) :
    Prepends (writeOnto spread level m) := by
  induction m generalizing level with
  | leaf m hm =>
    rw [writeOnto_leaf hm]
    exact fun rest => by simp
  | list items ih =>
    rw [writeOnto_list]
    exact prepends_bracket spread level '[' ']'
      (List.forall_mem_map.2 fun m hm => ih m hm (level + 1))
  | object fields ih =>
    rw [writeOnto_object]
    apply prepends_bracket
    rw [List.forall_mem_map]
    intro field hfield
    apply prepends_writeField
    obtain ⟨f, hf, rfl⟩ := List.mem_map.1 ((List.mergeSort_perm _ _).subset hfield)
    exact ih f hf (level + 1)

/-- A canonical message is read back from its text, whatever white space stands behind it. -/
theorem read_writeOnto (spread : Spread) {m : Message} (h : m.Every (Canonical limit))
    {gap : List Char} (hgap : IsGap gap) :
    read limit (writeOnto spread 0 m [] ++ gap) = .ok m := by
  have hm := readsAs_writeOnto spread h 0
  have hends : Ends gap := fun c hc => by rw [isEnd, hgap c (List.mem_of_mem_head? hc)]; rfl
  have hfuel : (writeOnto spread 0 m gap).length ≤
      (writeOnto spread 0 m gap).length + 1 + gap.length := by omega
  have hskip : skipSpace (writeOnto spread 0 m gap) = writeOnto spread 0 m gap :=
    skipSpace_gap isGap_nil (stops_isSpace (hm.starts gap))
  have hrest : skipSpace gap = [] := List.dropWhile_eq_nil_iff.2 hgap
  rw [← prepends_writeOnto spread 0 m gap, read, hskip, hm.reads hends hfuel, ok_bind]
  exact if_pos hrest

end Formulary.Message
