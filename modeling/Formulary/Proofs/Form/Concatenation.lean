import Formulary.Proofs.Form.Reader
import Formulary.Proofs.Position
import Formulary.Proofs.Token.Concatenation

/-!
# The forms of texts in a row

A text that is read to its end, a newline and any further text are read as the first and then as
the second, whose positions lie further down by the lines in front of it. The tokens come apart at
the newline, and a step of the reader uses a token's offset only for its position.
-/
namespace Formulary

open Token (Lexed.append Lexed.shift lexFrom_append_newline lexFrom_shift)

namespace ReadError

def pos : ReadError → Position
  | .unterminatedString pos => pos
  | .unterminatedComment pos => pos
  | .unexpectedCharacter pos _ => pos
  | .unmatchedOpening pos => pos
  | .unexpectedClosing pos => pos
  | .badEscape pos _ _ => pos

/-- The same error, so many lines further down. -/
def down (n : Nat) : ReadError → ReadError
  | .unterminatedString pos => .unterminatedString (pos.down n)
  | .unterminatedComment pos => .unterminatedComment (pos.down n)
  | .unexpectedCharacter pos c => .unexpectedCharacter (pos.down n) c
  | .unmatchedOpening pos => .unmatchedOpening (pos.down n)
  | .unexpectedClosing pos => .unexpectedClosing (pos.down n)
  | .badEscape pos literal cause => .badEscape (pos.down n) literal cause

theorem kind_down (n : Nat) (e : ReadError) : (e.down n).kind = e.kind := by
  cases e <;> rfl

/-- A message starts with the position, and the rest of it does not depend on that. -/
theorem message_down (n : Nat) (e : ReadError) : ∃ rest : String,
    e.message = e.pos.text ++ rest ∧ (e.down n).message = (e.pos.down n).text ++ rest := by
  cases e with
  | unterminatedString pos => exact ⟨_, rfl, rfl⟩
  | unterminatedComment pos => exact ⟨_, rfl, rfl⟩
  | unexpectedCharacter pos c => exact ⟨_, String.append_assoc .., String.append_assoc ..⟩
  | unmatchedOpening pos => exact ⟨_, rfl, rfl⟩
  | unexpectedClosing pos => exact ⟨_, rfl, rfl⟩
  | badEscape pos literal cause => exact ⟨_, String.append_assoc .., String.append_assoc ..⟩

end ReadError

namespace Form

mutual

/-- The same form, so many lines further down at every depth. -/
def down (n : Nat) : Form → Form
  | .string pos value => .string (pos.down n) value
  | .number pos literal kind => .number (pos.down n) literal kind
  | .symbol pos literal => .symbol (pos.down n) literal
  | .list pos items => .list (pos.down n) (downAll n items)
  | .bare pos => .bare (pos.down n)

def downAll (n : Nat) : List Form → List Form
  | [] => []
  | form :: forms => down n form :: downAll n forms

end

theorem downAll_eq (n : Nat) (forms : List Form) : downAll n forms = forms.map (down n) := by
  induction forms with
  | nil => rfl
  | cons form forms ih => rw [downAll, ih, List.map_cons]

theorem down_ofWord (n : Nat) (pos : Position) (text : List Char) :
    (ofWord pos text).down n = ofWord (pos.down n) text := by
  unfold ofWord
  split <;> rfl

def Frame.down (n : Nat) (frame : Frame) : Frame :=
  ⟨frame.pos.down n, frame.items.map (Form.down n)⟩

def Step.down (n : Nat) : Step → Step
  | .done form => .done (form.down n)
  | .more stack => .more (stack.map (Frame.down n))

/-! ## A text further down -/

variable {lines lines' : LineIndex} {n k : Nat}

theorem place_down (form : Form) (stack : List Frame) :
    place (form.down n) (stack.map (Frame.down n)) = (place form stack).down n := by
  cases stack <;> rfl

/-- A step on a token that lies further down, with lists that were opened further down. -/
theorem step_down {t : Token}
    (ht : lines'.position (t.offset + k) = (lines.position t.offset).down n) (stack : List Frame) :
    step lines' (stack.map (Frame.down n)) (t.shift k) =
      ((step lines stack t).map (Step.down n)).mapError (ReadError.down n) := by
  obtain ⟨kind, text, offset⟩ := t
  dsimp only at ht
  cases kind with
  | opening =>
    simp only [step, Token.shift, ht]
    rfl
  | closing =>
    cases stack with
    | nil =>
      simp only [step, Token.shift, ht, List.map_nil]
      rfl
    | cons frame stack =>
      have hlist : Form.list (frame.pos.down n) (frame.items.map (Form.down n)).reverse =
          (Form.list frame.pos frame.items.reverse).down n := by
        rw [down, downAll_eq, List.map_reverse]
      simp only [step, Token.shift, List.map_cons, Frame.down, hlist, place_down]
      rfl
  | string =>
    simp only [step, Token.shift, ht]
    cases unescape text with
    | ok value => exact congrArg Except.ok (place_down (.string _ value) stack)
    | error cause => rfl
  | word =>
    simp only [step, Token.shift, ht, ← down_ofWord, place_down]
    rfl

theorem error_down {fault : LexFault}
    (h : lines'.position (fault.offset + k) = (lines.position fault.offset).down n) :
    LexFault.error lines' ⟨fault.kind, fault.offset + k⟩ = (fault.error lines).down n := by
  obtain ⟨kind, offset⟩ := fault
  dsimp only at h
  cases kind <;> simp only [LexFault.error, h, ReadError.down]

theorem readMany_down {fault? : Option LexFault} {ts : List Token} (stack : List Frame)
    (hts : ∀ t ∈ ts, lines'.position (t.offset + k) = (lines.position t.offset).down n)
    (hfault : ∀ fault ∈ fault?,
      lines'.position (fault.offset + k) = (lines.position fault.offset).down n) :
    readMany lines' (fault?.map fun fault => ⟨fault.kind, fault.offset + k⟩)
        (stack.map (Frame.down n)) (ts.map (Token.shift k)) =
      ((readMany lines fault? stack ts).1.map (down n),
        (readMany lines fault? stack ts).2.map (ReadError.down n)) := by
  induction ts generalizing stack with
  | nil =>
    rw [List.map_nil, readMany, readMany]
    cases fault? with
    | none => cases stack <;> rfl
    | some fault => simp only [Option.map_some, atEnd, error_down (hfault fault rfl), List.map_nil]
  | cons t ts ih =>
    obtain ⟨ht, hts⟩ := List.forall_mem_cons.1 hts
    rw [List.map_cons, readMany, readMany, step_down ht]
    cases step lines stack t with
    | error e => rfl
    | ok s =>
      cases s with
      | done form =>
        have hrest := ih [] hts
        rw [List.map_nil] at hrest
        simp only [Except.map, Except.mapError, Step.down, hrest, List.map_cons]
      | more stack => exact ih stack hts

/-! ## A text in front -/

theorem step_congr {t : Token} (ht : lines.position t.offset = lines'.position t.offset)
    (stack : List Frame) : step lines stack t = step lines' stack t := by
  simp only [step, ht]

/-- Tokens that are read to their end are read in the same way in front of other tokens. -/
theorem readMany_append {fault? : Option LexFault} {ts : List Token} {stack : List Frame}
    (hts : ∀ t ∈ ts, lines'.position t.offset = lines.position t.offset)
    (h : (readMany lines none stack ts).2 = none) (us : List Token) :
    readMany lines' fault? stack (ts ++ us) =
      ((readMany lines none stack ts).1 ++ (readMany lines' fault? [] us).1,
        (readMany lines' fault? [] us).2) := by
  induction ts generalizing stack with
  | nil =>
    cases stack with
    | nil => rfl
    | cons frame stack => cases h
  | cons t ts ih =>
    obtain ⟨ht, hts⟩ := List.forall_mem_cons.1 hts
    rw [List.cons_append, readMany, step_congr ht]
    rw [readMany] at h ⊢
    cases hstep : step lines stack t with
    | error e => rw [hstep] at h; cases h
    | ok s =>
      rw [hstep] at h
      cases s with
      | done form => simp only [ih hts h, List.cons_append]
      | more stack => exact ih hts h

/-- A text that is read to its end has no fault. -/
theorem fault?_of_readMany {fault? : Option LexFault} {ts : List Token} {stack : List Frame}
    (h : (readMany lines fault? stack ts).2 = none) : fault? = none := by
  induction ts generalizing stack with
  | nil =>
    cases fault? with
    | none => rfl
    | some fault => cases h
  | cons t ts ih =>
    rw [readMany] at h
    cases hstep : step lines stack t with
    | error e => rw [hstep] at h; cases h
    | ok s =>
      rw [hstep] at h
      cases s with
      | done form => exact ih h
      | more stack => exact ih h

theorem lex_append_newline {before : List Char} (h : (lex before).fault? = none)
    (source : List Char) :
    lex (before ++ '\n' :: source) =
      Lexed.append (lex before).tokens (Lexed.shift (before.length + 1) (lex source)) := by
  rw [lex, lexFrom_append_newline h, lexFrom_shift]
  rfl

/-- The forms and the error of two texts with a newline between them, where the first is read to
its end. -/
theorem readAll_append_newline {file : String} {before : List Char}
    (h : (readAll file before).2 = none) (source : List Char) :
    readAll file (before ++ '\n' :: source) =
      ((readAll file before).1 ++ (readAll file source).1.map (down (1 + before.count '\n')),
        (readAll file source).2.map (ReadError.down (1 + before.count '\n'))) := by
  have hfault : (lex before).fault? = none := fault?_of_readMany h
  have hbefore : ∀ t ∈ (lex before).tokens,
      (LineIndex.ofSource file (before ++ '\n' :: source)).position t.offset =
        (LineIndex.ofSource file before).position t.offset := fun t ht =>
    LineIndex.position_append file (Token.offset_le_of_mem_lex t ht) _
  have hts : ∀ t ∈ (lex source).tokens,
      (LineIndex.ofSource file (before ++ '\n' :: source)).position
          (t.offset + (before.length + 1)) =
        ((LineIndex.ofSource file source).position t.offset).down (1 + before.count '\n') :=
    fun t ht => LineIndex.position_append_newline file before (Token.offset_le_of_mem_lex t ht)
  have hend : ∀ fault ∈ (lex source).fault?,
      (LineIndex.ofSource file (before ++ '\n' :: source)).position
          (fault.offset + (before.length + 1)) =
        ((LineIndex.ofSource file source).position fault.offset).down (1 + before.count '\n') :=
    fun fault hf => LineIndex.position_append_newline file before (Token.offset_le_of_fault fault hf)
  have hrest := readMany_down [] hts hend
  rw [List.map_nil] at hrest
  simp only [readAll, hfault] at h
  simp only [readAll, lex_append_newline hfault, Lexed.append, Lexed.shift, hfault]
  rw [readMany_append hbefore h, hrest]

/-- To read a text that is read to its end, a newline and a second text is to read the one and then
the other. The forms of the second lie further down by the newlines in front of them, and if its
reading fails, so does that of the whole, behind the same forms and with the same error. -/
theorem deliver_append_newline (file : String) (before source : List Char)
    (h : (readAll file before).2 = none) :
    let n := 1 + before.count '\n'
    let whole := before ++ '\n' :: source
    let rest := (Reader.ofSource file source).deliver
    ((readAll file source).2 = none → readAll file whole =
        ((readAll file before).1 ++ (readAll file source).1.map (down n), none)) ∧
      (∀ e, rest.2 = some e → ∃ e', (Reader.ofSource file whole).deliver =
          ((Reader.ofSource file before).deliver.1 ++ rest.1.map (down n), some e') ∧
        e'.kind = e.kind ∧ ∃ detail : String, e.message = e.pos.text ++ detail ∧
          e'.message = (e.pos.down n).text ++ detail) := by
  intro n whole rest
  have hwhole := readAll_append_newline h source
  refine ⟨fun hsource => ?_, fun e he => ?_⟩
  · rw [hwhole, hsource]
    rfl
  · refine ⟨e.down n, ?_, e.kind_down n, e.message_down n⟩
    rw [Reader.deliver_ofSource, Reader.deliver_ofSource, hwhole, ← Reader.deliver_ofSource file
      source, he]
    rfl

theorem deliver_append_newline_comment :
    let before := "(f 1) ; (a".toList
    let source := "2 (b\n \"\\q\")".toList
    let e := ReadError.badEscape ⟨"in.formula", 2, 2⟩ "\"\\q\"".toList (.unknown 'q')
    (readAll "in.formula" before).2 = none ∧ (readAll "in.formula" source).2 = some e ∧
      ∃ e', (Reader.ofSource "in.formula" (before ++ '\n' :: source)).deliver =
        ((Reader.ofSource "in.formula" before).deliver.1 ++
          (Reader.ofSource "in.formula" source).deliver.1.map (down 1), some e') ∧
        e'.kind = .reading := by
  intro before source e
  have hbefore : (readAll "in.formula" before).2 = none := by decide +kernel
  have hsource : (readAll "in.formula" source).2 = some e := by decide +kernel
  have hrest : (Reader.ofSource "in.formula" source).deliver.2 = some e := by
    rw [Reader.deliver_ofSource, hsource]
  obtain ⟨e', hdeliver, hkind, -⟩ :=
    (deliver_append_newline "in.formula" before source hbefore).2 e hrest
  exact ⟨hbefore, hsource, e', hdeliver, hkind⟩

end Form

end Formulary
