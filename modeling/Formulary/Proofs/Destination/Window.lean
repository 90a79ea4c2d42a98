import Formulary.Proofs.Destination.Conformance
import Formulary.Proofs.Number.Literal

/-!
# The window of a record

The tags of a declaration say which part of a list a record uses. A field takes the element at its
position, which is the integer of its tag or else its place among the fields, and a field that is
tagged `&rest` takes all elements from its place on. A list that is long enough for every field
holds every element that is asked for, and without `&rest` field it must not be longer.
-/
namespace Formulary

open Text (Stops stops_nil)
open Token (IsWord isWordChar lexFrom)

/-! ## Reading tags -/

namespace Token

theorem isWordChar_of_isDigit {c : Char} (h : Text.isDigit c = true) : isWordChar c = true := by
  have hne : ∀ d : Char, Text.isDigit d = false → c ≠ d := by
    rintro d hd rfl
    cases h.symm.trans hd
  have hblank : Text.isBlank c = false := by
    obtain ⟨z, hz, hle, -⟩ := Numeral.exists_zero_of_isDigit h
    have hzero : ∀ z ∈ Text.digitZeros, 48 ≤ z := by decide
    have := hzero z hz
    rw [Text.isBlank, Numeral.isSpace_of_isDigit h, Bool.false_or, Bool.and_eq_false_iff,
      decide_eq_false_iff_not, decide_eq_false_iff_not]
    omega
  simp [isWordChar, hblank, hne '(' (by decide), hne ')' (by decide), hne '\x22' (by decide),
    hne ';' (by decide)]

theorem isWord_of_isNumeral {cs : List Char} (h : Numeral.isNumeral cs = true) : IsWord cs where
  ne_nil := by
    rintro rfl
    cases h
  isWordChar c hc := by
    have hnumeral := Numeral.isNumeralChar_of_mem h c hc
    simp only [Numeral.isNumeralChar, Bool.or_eq_true, beq_iff_eq] at hnumeral
    rcases hnumeral with ((((hdigit | rfl) | rfl) | rfl) | rfl) | rfl
    · exact isWordChar_of_isDigit hdigit
    all_goals decide
  noComment hcomment :=
    absurd (Numeral.isNumeralChar_of_mem h '/' (hcomment.subset List.mem_cons_self)) (by decide)

end Token

namespace Expr

theorem parse_word {w : List Char} (hw : IsWord w) (file : String) :
    parse file w = (Form.ofWord ((LineIndex.ofSource file w).position 0) w).toExpr := by
  have hlex := Token.lexFrom_word hw stops_nil 0
  rw [List.append_nil, Token.lexFrom_nil] at hlex
  have htokens : lex w = ⟨[⟨.word, w, 0⟩], none⟩ := by
    rw [lex, hlex]
    rfl
  rw [parse, Form.readForm_of_reads htokens (Form.reads_word w 0)]
  rfl

theorem parse_int {cs : List Char} {n : Int} (h : Numeral.int? cs = some n)
    (hn : IntKind.int64.contains n = true) (file : String) :
    ∃ source, parse file cs = .ok (.atom source (.int .int64 n)) := by
  have hinteger := Numeral.isInteger_of_int? h
  rw [parse_word (Token.isWord_of_isNumeral hinteger.isNumeral), Form.ofWord,
    if_pos hinteger.isNumeral, if_pos hinteger.isWhole]
  refine ⟨_, Form.toExpr_of_toAtom ?_⟩
  simp only [Form.toAtom, hinteger.intLiteral?_eq, h, hn, if_true]

end Expr

/-! ## The declared window -/

namespace FieldDecl

/-- The integer of a tag, if that is a non-negative integer of 64 bits. -/
def index? (f : FieldDecl) : Option Nat :=
  (Numeral.int? f.tag.toList).bind fun n => if 0 ≤ n ∧ n < 2 ^ 63 then some n.toNat else none

def isRest (f : FieldDecl) : Bool := f.tag == "&rest"

/-- The field has no tag, or one that is read as an integer or as the marker. -/
def WellTagged (f : FieldDecl) : Prop := f.tag = "" ∨ f.index? ≠ none ∨ f.isRest = true

/-- The position of the field that has the given place among the bound ones. -/
def position (f : FieldDecl) (place : Nat) : Nat := f.index?.getD place

/-- How long a list must be for the field to be set. -/
def needed (f : FieldDecl) (place : Nat) : Nat :=
  if f.isRest then f.position place else f.position place + 1

def slotAt (f : FieldDecl) (place : Nat) : Slot :=
  ⟨f.name, f.type.plainly, f.position place, f.isRest⟩

/-- The elements of a list that the field is bound from. -/
def elements (f : FieldDecl) (place : Nat) (es : List Expr) : List Expr :=
  if f.isRest then es.drop place else es[f.position place]?.toList

/-- The expression that the field is bound from: the list of all elements from its place on, or the
element at its position. -/
def taken? (f : FieldDecl) (place : Nat) (es : List Expr) : Option Expr :=
  if f.isRest then some (.list none (f.elements place es)) else es[f.position place]?

/-- How an error is placed at the field. -/
def wrap (f : FieldDecl) (place : Nat) : BindError → BindError :=
  if f.isRest then .inRest f.name place else .inField f.name (f.position place)

variable {f : FieldDecl}

theorem position_of_untagged (h : f.tag = "") (place : Nat) : f.position place = place := by
  rw [position, index?, h]
  rfl

theorem position_of_isRest (h : f.isRest = true) (place : Nat) : f.position place = place := by
  rw [isRest, beq_iff_eq] at h
  rw [position, index?, h]
  rfl

theorem component?_slotAt (f : FieldDecl) (place : Nat) (es : List Expr) :
    (f.slotAt place).component? es = f.taken? place es := by
  rw [Slot.component?, taken?, elements, slotAt]
  by_cases hrest : f.isRest = true
  · simp only [hrest, if_true, position_of_isRest hrest]
  · simp only [hrest, Bool.false_eq_true, if_false]

theorem isRest_of_untagged (h : f.tag = "") : f.isRest = false := by
  rw [isRest, h]
  rfl

theorem isRest_of_index? (h : f.index? ≠ none) : f.isRest = false := by
  rw [Bool.eq_false_iff]
  intro hrest
  rw [isRest, beq_iff_eq] at hrest
  rw [index?, hrest] at h
  exact h rfl

theorem slot_untagged (h : f.tag = "") (record : String) (place : Nat) (hasRest : Bool) :
    RecordDecl.slot record place hasRest f = .ok (f.slotAt place) := by
  rw [slotAt, position_of_untagged h, isRest_of_untagged h]
  exact if_pos h

theorem slot_index (h : f.index? ≠ none) (record : String) (place : Nat) (hasRest : Bool) :
    RecordDecl.slot record place hasRest f = .ok (f.slotAt place) := by
  rw [slotAt, isRest_of_index? h, position]
  obtain ⟨k, hk⟩ := Option.ne_none_iff_exists'.1 h
  rw [hk, Option.getD_some]
  obtain ⟨n, hn, hk⟩ := Option.bind_eq_some_iff.1 hk
  split_ifs at hk with hrange
  cases hk
  have htag : f.tag ≠ "" := by
    intro htag
    rw [htag] at hn
    cases hn
  have hcontains : IntKind.int64.contains n = true := by
    rw [IntKind.contains, Bool.and_eq_true, decide_eq_true_iff, decide_eq_true_iff]
    exact ⟨le_trans (by decide) hrange.1, Int.lt_add_one_iff.1 hrange.2⟩
  obtain ⟨source, hparse⟩ := Expr.parse_int hn hcontains ""
  simp only [RecordDecl.slot, htag, hparse, hrange.1, if_true, if_false]

theorem slot_marker (h : f.isRest = true) (record : String) (place : Nat) (hasRest : Bool) :
    RecordDecl.slot record place hasRest f =
      if hasRest then .error (.secondRest record f.name) else .ok (f.slotAt place) := by
  rw [slotAt, position_of_isRest h, h]
  rw [isRest, beq_iff_eq] at h
  obtain ⟨source, hparse⟩ := RecordDecl.parse_restMarker
  unfold RecordDecl.slot
  rw [h, hparse]
  simp [Expr.symbol?]

/-- A field is refused only as the second one that is tagged `&rest`. -/
theorem slot_eq (h : f.WellTagged) (record : String) (place : Nat) (hasRest : Bool) :
    RecordDecl.slot record place hasRest f =
      if (hasRest && f.isRest) = true then .error (.secondRest record f.name)
      else .ok (f.slotAt place) := by
  rcases h with h | h | h
  · rw [slot_untagged h, isRest_of_untagged h, Bool.and_false, if_neg Bool.false_ne_true]
  · rw [slot_index h, isRest_of_index? h, Bool.and_false, if_neg Bool.false_ne_true]
  · rw [slot_marker h, h, Bool.and_true]

end FieldDecl

namespace RecordDecl

/-- The fields that are set from a list. -/
def boundFields (d : RecordDecl) : List FieldDecl := d.fields.filter (·.isBound)

/-- The least length of a list that has an element for every field. -/
def leastLength (d : RecordDecl) : Nat :=
  (d.boundFields.mapIdx fun place f => f.needed place).foldl max 0

/-- The types of all fields name records of the family only. -/
def Resolvable (d : RecordDecl) (family : Family) : Prop :=
  ∀ f ∈ d.fields, ∀ name ∈ f.type.records, ∃ r ∈ family, r.name = name

theorem compile_of_resolvable {d : RecordDecl} {family : Family} (h : d.Resolvable family) :
    d.compile family = (slots d.name 0 false d.boundFields).map (⟨d.name, ·⟩) := by
  have hfound : (d.fields.flatMap (·.type.records)).find?
      (fun name => !family.any (·.name == name)) = none := by
    rw [List.find?_eq_none]
    intro name hname
    obtain ⟨f, hf, hname⟩ := List.mem_flatMap.1 hname
    obtain ⟨r, hr, rfl⟩ := h f hf name hname
    simpa using ⟨r, hr, rfl⟩
  simp only [compile, hfound, boundFields]

/-- Tagged fields give their slots in order, unless there are two that are tagged `&rest`; one of
them may lie before the others. -/
theorem slots_eq {record : String} {place : Nat} {hasRest : Bool} {fs : List FieldDecl}
    (h : ∀ f ∈ fs, f.WellTagged) :
    (hasRest.toNat + fs.countP (·.isRest) < 2 ∧ slots record place hasRest fs =
        .ok (fs.mapIdx fun i f => f.slotAt (place + i))) ∨
      (2 ≤ hasRest.toNat + fs.countP (·.isRest) ∧ ∃ field,
        slots record place hasRest fs = .error (.secondRest record field)) := by
  induction fs generalizing place hasRest with
  | nil =>
    left
    cases hasRest <;> simp [slots]
  | cons f fs ih =>
    obtain ⟨hf, hfs⟩ := List.forall_mem_cons.1 h
    have hslot := FieldDecl.slot_eq hf record place hasRest
    by_cases hsecond : (hasRest && f.isRest) = true
    · right
      rw [if_pos hsecond] at hslot
      obtain ⟨rfl, hrest⟩ := Bool.and_eq_true_iff.1 hsecond
      refine ⟨?_, f.name, ?_⟩
      · rw [List.countP_cons_of_pos hrest, Bool.toNat_true]
        omega
      · rw [slots, hslot]
        rfl
    · rw [if_neg hsecond] at hslot
      have hcount : hasRest.toNat + (f :: fs).countP (·.isRest) =
          (hasRest || f.isRest).toNat + fs.countP (·.isRest) := by
        by_cases hrest : f.isRest = true
        · have hfirst : hasRest = false := by simpa [hrest] using hsecond
          rw [List.countP_cons_of_pos hrest, hfirst, hrest, Bool.toNat_false, Bool.false_or,
            Bool.toNat_true, Nat.zero_add, Nat.add_comm]
        · rw [List.countP_cons_of_neg hrest, Bool.eq_false_iff.2 hrest, Bool.or_false]
      rw [hcount]
      rcases @ih (place + 1) (hasRest || f.isRest) hfs with ⟨hfew, hslots⟩ | ⟨hmany, field, hslots⟩
      · left
        refine ⟨hfew, ?_⟩
        rw [slots_cons hslot hslots]
        simp [List.mapIdx_cons, Nat.add_assoc, Nat.add_comm 1]
      · right
        refine ⟨hmany, field, ?_⟩
        rw [slots, hslot, ok_bind]
        simp only [FieldDecl.slotAt, hslots, error_bind]

/-- No list of that length can be bound: it is too short for some field, or it is too long and no
field takes what is left over. -/
def Refuses (d : RecordDecl) (length : Nat) : Prop :=
  length < d.leastLength ∨
    (d.leastLength < length ∧ ∀ f ∈ d.boundFields, f.isRest = false)

end RecordDecl

/-! ## Lists in the window -/

namespace BindError

/-- The error says that a list has not the right length. -/
def isLength : BindError → Bool
  | .tooShort _ _ _ | .tooLong _ _ _ => true
  | _ => false

/-- What is placed at a field says nothing about a length, and no field lies out of bounds. -/
theorem place_wrap (f : FieldDecl) (place : Nat) (cause : BindError) :
    (cause.place (f.wrap place)).isLength = false ∧
      ∀ field position x, cause.place (f.wrap place) ≠ .outOfBounds field position x := by
  rw [BindError.place, FieldDecl.wrap]
  by_cases h : cause.isPlaceable = true
  · rw [if_pos h]
    split
    · exact ⟨rfl, by simp⟩
    · exact ⟨rfl, by simp⟩
  · rw [if_neg h]
    constructor
    · cases cause <;> first | rfl | exact absurd rfl h
    · rintro field position x rfl
      exact h rfl

end BindError

namespace Binder

variable {bind : Expr → Destination → Except BindError Native} {e : Expr} {es : List Expr}

/-- The outcome of a field that finds what it takes is that of binding it. -/
theorem bindSlot_slotAt {f : FieldDecl} {place : Nat} {x : Expr}
    (h : f.taken? place es = some x) :
    bindSlot bind e es (f.slotAt place) =
      (bind x f.type.plainly).mapError (·.place (f.wrap place)) := by
  rw [← f.component?_slotAt] at h
  unfold Slot.component? at h
  unfold bindSlot FieldDecl.wrap
  by_cases hrest : f.isRest
  · have hposition := FieldDecl.position_of_isRest hrest place
    simp only [FieldDecl.slotAt, hrest, if_true, hposition, Option.some.injEq] at h ⊢
    rw [h]
  · simp only [FieldDecl.slotAt, hrest, Bool.false_eq_true, if_false] at h ⊢
    simp only [h]

/-- A list that fits is taken apart slot by slot. -/
theorem bindRecord_of_fits {shape : Shape} {source : Source} (h : shape.Fits es.length) :
    bindRecord bind shape (.list source es) =
      (bindSlots bind (.list source es) es shape.slots).map (.record shape.name) := by
  simp only [bindRecord, Expr.elems?, checkLength_ok_iff.2 h, ok_bind, bind_return]

end Binder

/-! ## Declarations and lists -/

namespace RecordDecl

open Binder (bindRecord bindSlot bindSlots checkLength)

variable {d : RecordDecl}

/-- The shape that a declaration has if its tags are in order. -/
def window (d : RecordDecl) : Shape :=
  ⟨d.name, d.boundFields.mapIdx fun place f => f.slotAt place⟩

theorem minLength_window : d.window.minLength = d.leastLength := by
  have hneeded : (d.boundFields.mapIdx fun place f => f.needed place) =
      d.window.slots.map Slot.needed := by
    rw [window, List.mapIdx_eq_zipIdx_map, List.mapIdx_eq_zipIdx_map, List.map_map]
    rfl
  rw [Shape.minLength, leastLength, hneeded, List.foldl_map]

theorem slotAt_mem_window {place : Nat} {f : FieldDecl} (h : d.boundFields[place]? = some f) :
    f.slotAt place ∈ d.window.slots := by
  obtain ⟨hplace, rfl⟩ := List.getElem?_eq_some_iff.1 h
  exact List.mem_mapIdx.2 ⟨place, hplace, rfl⟩

theorem hasRest_window : d.window.hasRest = true ↔ ∃ f ∈ d.boundFields, f.isRest = true := by
  rw [Shape.hasRest, List.any_eq_true]
  constructor
  · rintro ⟨slot, hslot, hrest⟩
    obtain ⟨place, hplace, rfl⟩ := List.mem_mapIdx.1 hslot
    exact ⟨_, List.getElem_mem hplace, hrest⟩
  · rintro ⟨f, hf, hrest⟩
    obtain ⟨place, hplace⟩ := List.mem_iff_getElem?.1 hf
    exact ⟨_, slotAt_mem_window hplace, hrest⟩

theorem fits_window {n : Nat} : d.window.Fits n ↔ ¬ d.Refuses n := by
  rw [Shape.Fits, Shape.maxLength?, minLength_window, Refuses]
  by_cases hrest : d.window.hasRest = true
  · obtain ⟨f, hf, hisRest⟩ := hasRest_window.1 hrest
    have hsome : ¬ ∀ f ∈ d.boundFields, f.isRest = false := by
      intro hnone
      cases hisRest.symm.trans (hnone f hf)
    rw [if_pos hrest, and_iff_left (by simp), ← Nat.not_lt, not_iff_not, or_iff_left]
    exact fun hlong => hsome hlong.2
  · have hnone : ∀ f ∈ d.boundFields, f.isRest = false := by
      intro f hf
      rw [Bool.eq_false_iff]
      exact fun hisRest => hrest (hasRest_window.2 ⟨f, hf, hisRest⟩)
    rw [if_neg hrest, and_iff_left hnone, not_or, Nat.not_lt, Nat.not_lt]
    simp

/-- The field at a place is bound to a value, whatever binds what it takes from the list. -/
def BoundTo (bind : Expr → Destination → Except BindError Native) (es : List Expr) (place : Nat)
    (f : FieldDecl) (v : Native) : Prop :=
  ∃ x, f.taken? place es = some x ∧ bind x f.type.plainly = .ok v

/-- The error of the field at a place, from what it takes from the list. -/
def FailsAt (bind : Expr → Destination → Except BindError Native) (es : List Expr) (place : Nat)
    (f : FieldDecl) (err : BindError) : Prop :=
  ∃ x cause, f.taken? place es = some x ∧ bind x f.type.plainly = .error cause ∧
    err = cause.place (f.wrap place)

/-- A list is bound field by field, whatever binds the elements. -/
structure TakesApart (d : RecordDecl) (bind : Expr → Destination → Except BindError Native)
    (source : Source) (es : List Expr) : Prop where
  /-- Every field finds what it takes, and no field is reported as out of bounds. -/
  inBounds : (∀ (place : Nat) (f : FieldDecl), d.boundFields[place]? = some f →
      ∃ x, f.taken? place es = some x) ∧
    ∀ field position x,
      bindRecord bind d.window (.list source es) ≠ .error (.outOfBounds field position x)
  /-- The record holds the value of each field, in the order of the declaration. -/
  ok_iff : ∀ v, bindRecord bind d.window (.list source es) = .ok v ↔
    ∃ fields, v = .record d.name fields ∧ fields.length = d.boundFields.length ∧
      ∀ (place : Nat) (f : FieldDecl), d.boundFields[place]? = some f →
        ∃ w, fields[place]? = some (f.name, w) ∧ BoundTo bind es place f w
  /-- The error is that of the first field that fails. -/
  error_iff : ∀ err, bindRecord bind d.window (.list source es) = .error err ↔
    ∃ (place : Nat) (f : FieldDecl), d.boundFields[place]? = some f ∧
      FailsAt bind es place f err ∧
      ∀ (earlier : Nat) (g : FieldDecl), earlier < place → d.boundFields[earlier]? = some g →
        ∃ w, BoundTo bind es earlier g w
  /-- Fields without tags and a last one for the rest use up the list. -/
  whole : ∀ fields last, d.boundFields = fields ++ [last] → (∀ f ∈ fields, f.tag = "") →
    last.isRest = true → (d.boundFields.mapIdx fun place f => f.elements place es).flatten = es

theorem flatten_elements_untagged {fields : List FieldDecl} (h : ∀ f ∈ fields, f.tag = "")
    (place : Nat) (es : List Expr) :
    (fields.mapIdx fun i f => f.elements (place + i) es).flatten =
      (es.drop place).take fields.length := by
  induction fields generalizing place with
  | nil => rfl
  | cons f fields ih =>
    obtain ⟨hf, hfields⟩ := List.forall_mem_cons.1 h
    have helements : f.elements place es = es[place]?.toList := by
      rw [FieldDecl.elements, FieldDecl.isRest_of_untagged hf, if_neg Bool.false_ne_true,
        FieldDecl.position_of_untagged hf]
    have hrest : (fields.mapIdx fun i f => f.elements (place + (i + 1)) es).flatten =
        (es.drop (place + 1)).take fields.length := by
      rw [← ih hfields (place + 1)]
      simp only [Nat.add_assoc, Nat.add_comm 1]
    rw [List.mapIdx_cons, List.flatten_cons, Nat.add_zero, helements, hrest]
    by_cases hplace : place < es.length
    · rw [List.drop_eq_getElem_cons hplace, List.getElem?_eq_getElem hplace]
      rfl
    · rw [Nat.not_lt] at hplace
      rw [List.getElem?_eq_none hplace, List.drop_eq_nil_of_le hplace,
        List.drop_eq_nil_of_le (Nat.le_succ_of_le hplace), List.take_nil, List.take_nil]
      rfl

theorem flatten_elements {fields : List FieldDecl} {last : FieldDecl}
    (hfields : d.boundFields = fields ++ [last]) (htags : ∀ f ∈ fields, f.tag = "")
    (hlast : last.isRest = true) (es : List Expr) :
    (d.boundFields.mapIdx fun place f => f.elements place es).flatten = es := by
  have huntagged := flatten_elements_untagged htags 0 es
  simp only [Nat.zero_add] at huntagged
  rw [hfields, List.mapIdx_concat, List.flatten_concat, huntagged, FieldDecl.elements,
    if_pos hlast, List.drop_zero, List.take_append_drop]

/-! ### One field -/

section Field

variable {bind : Expr → Destination → Except BindError Native} {source : Source}
  {es : List Expr} {place : Nat} {f : FieldDecl}

theorem getElem?_window_iff {slot : Slot} :
    d.window.slots[place]? = some slot ↔
      ∃ f, d.boundFields[place]? = some f ∧ slot = f.slotAt place := by
  rw [window, List.getElem?_mapIdx, Option.map_eq_some_iff]
  simp only [@eq_comm _ slot]

theorem exists_taken? (h : ¬ d.Refuses es.length) (hf : d.boundFields[place]? = some f) :
    ∃ x, f.taken? place es = some x := by
  obtain ⟨x, hx⟩ := (fits_window.2 h).exists_component? (slotAt_mem_window hf)
  exact ⟨x, (f.component?_slotAt place es).symm.trans hx⟩

theorem bindSlot_ok_iff_boundTo {e : Expr} {v : Native} :
    bindSlot bind e es (f.slotAt place) = .ok v ↔ BoundTo bind es place f v := by
  rw [Binder.bindSlot_ok_iff, BoundTo, f.component?_slotAt]
  rfl

theorem bindSlot_error_iff_failsAt {e : Expr} {err : BindError}
    (h : ∃ x, f.taken? place es = some x) :
    bindSlot bind e es (f.slotAt place) = .error err ↔ FailsAt bind es place f err := by
  obtain ⟨x, hx⟩ := h
  simp only [Binder.bindSlot_slotAt hx, mapError_error_iff, FailsAt, hx, Option.some.injEq,
    exists_and_left, exists_eq_left', @eq_comm _ err]

end Field

theorem bindRecord_window_ok_iff {bind : Expr → Destination → Except BindError Native}
    {source : Source} {es : List Expr} (h : ¬ d.Refuses es.length) {v : Native} :
    bindRecord bind d.window (.list source es) = .ok v ↔
      ∃ fields, v = .record d.name fields ∧ fields.length = d.boundFields.length ∧
        ∀ (place : Nat) (f : FieldDecl), d.boundFields[place]? = some f →
          ∃ w, fields[place]? = some (f.name, w) ∧ BoundTo bind es place f w := by
  rw [Binder.bindRecord_of_fits (fits_window.2 h), map_ok_iff]
  constructor
  · rintro ⟨fields, hfields, rfl⟩
    obtain ⟨hlength, hall⟩ := forall₂_iff_getElem?.1 (Binder.bindSlots_ok_iff.1 hfields)
    refine ⟨fields, rfl, hlength.trans List.length_mapIdx, fun place f hf => ?_⟩
    obtain ⟨⟨name, w⟩, hw, rfl, hbound⟩ := hall place _ (getElem?_window_iff.2 ⟨f, hf, rfl⟩)
    rw [f.component?_slotAt] at hbound
    exact ⟨w, hw, hbound⟩
  · rintro ⟨fields, rfl, hlength, hall⟩
    refine ⟨fields, Binder.bindSlots_ok_iff.2 (forall₂_iff_getElem?.2 ⟨?_, ?_⟩), rfl⟩
    · exact hlength.trans List.length_mapIdx.symm
    · intro place slot hslot
      obtain ⟨f, hf, rfl⟩ := getElem?_window_iff.1 hslot
      obtain ⟨w, hw, hbound⟩ := hall place f hf
      rw [BoundTo, ← f.component?_slotAt] at hbound
      exact ⟨_, hw, rfl, hbound⟩

theorem bindRecord_window_error_iff {bind : Expr → Destination → Except BindError Native}
    {source : Source} {es : List Expr} (h : ¬ d.Refuses es.length) {err : BindError} :
    bindRecord bind d.window (.list source es) = .error err ↔
      ∃ (place : Nat) (f : FieldDecl), d.boundFields[place]? = some f ∧
        FailsAt bind es place f err ∧
        ∀ (earlier : Nat) (g : FieldDecl), earlier < place → d.boundFields[earlier]? = some g →
          ∃ w, BoundTo bind es earlier g w := by
  rw [Binder.bindRecord_of_fits (fits_window.2 h), map_error_iff, Binder.bindSlots_error_iff]
  constructor
  · rintro ⟨place, slot, hslot, herr, hearlier⟩
    obtain ⟨f, hf, rfl⟩ := getElem?_window_iff.1 hslot
    refine ⟨place, f, hf, (bindSlot_error_iff_failsAt (exists_taken? h hf)).1 herr, ?_⟩
    intro earlier g hlt hg
    obtain ⟨w, hw⟩ := hearlier earlier _ hlt (getElem?_window_iff.2 ⟨g, hg, rfl⟩)
    exact ⟨w, bindSlot_ok_iff_boundTo.1 hw⟩
  · rintro ⟨place, f, hf, hfails, hearlier⟩
    refine ⟨place, f.slotAt place, getElem?_window_iff.2 ⟨f, hf, rfl⟩, ?_, ?_⟩
    · exact (bindSlot_error_iff_failsAt (exists_taken? h hf)).2 hfails
    · intro earlier slot hlt hslot
      obtain ⟨g, hg, rfl⟩ := getElem?_window_iff.1 hslot
      obtain ⟨w, hw⟩ := hearlier earlier g hlt hg
      exact ⟨w, bindSlot_ok_iff_boundTo.2 hw⟩

/-- An error in a list of the right length comes from a field. -/
theorem not_isLength_of_error {bind : Expr → Destination → Except BindError Native}
    {source : Source} {es : List Expr} (h : ¬ d.Refuses es.length) {err : BindError}
    (herr : bindRecord bind d.window (.list source es) = .error err) :
    err.isLength = false ∧ ∀ field position x, err ≠ .outOfBounds field position x := by
  obtain ⟨place, f, -, ⟨x, cause, -, -, rfl⟩, -⟩ := (bindRecord_window_error_iff h).1 herr
  exact BindError.place_wrap f place cause

theorem takesApart_window {bind : Expr → Destination → Except BindError Native} {source : Source}
    {es : List Expr} (h : ¬ d.Refuses es.length) : d.TakesApart bind source es where
  inBounds := by
    refine ⟨fun place f hf => exists_taken? h hf, ?_⟩
    intro field position x hbounds
    exact (not_isLength_of_error h hbounds).2 field position x rfl
  ok_iff v := bindRecord_window_ok_iff h
  error_iff err := bindRecord_window_error_iff h
  whole fields last hfields htags hlast := flatten_elements hfields htags hlast es

theorem bindRecord_tooShort {bind : Expr → Destination → Except BindError Native}
    {source : Source} {es : List Expr} (h : es.length < d.leastLength) :
    bindRecord bind d.window (.list source es) =
      .error (.tooShort es.length d.leastLength (.list source es)) := by
  simp only [bindRecord, Expr.elems?, checkLength, minLength_window, if_pos h, error_bind]

theorem bindRecord_tooLong {bind : Expr → Destination → Except BindError Native}
    {source : Source} {es : List Expr} (h : d.leastLength < es.length)
    (hnone : ∀ f ∈ d.boundFields, f.isRest = false) :
    bindRecord bind d.window (.list source es) =
      .error (.tooLong es.length d.leastLength (.list source es)) := by
  have hrest : ¬ d.window.hasRest = true := by
    rw [hasRest_window]
    rintro ⟨f, hf, hisRest⟩
    cases hisRest.symm.trans (hnone f hf)
  simp only [bindRecord, Expr.elems?, checkLength, Shape.maxLength?, minLength_window,
    if_neg hrest, if_neg (Nat.lt_asymm h), if_pos h, error_bind]

/-- The tags of a declaration are refused if there are two `&rest` fields, and otherwise they
declare the window of the lists that the record binds and what each field takes from them. -/
theorem compile_window (family : Family) (d : RecordDecl) (hresolved : d.Resolvable family)
    (htags : ∀ f ∈ d.boundFields, f.WellTagged) :
    ((∃ err, d.compile family = .error err ∧ err.kind = .shape) ↔
        2 ≤ d.boundFields.countP (·.isRest)) ∧
      (d.boundFields.countP (·.isRest) < 2 → d.compile family = .ok d.window ∧
        ∀ bind source es,
          ((∃ err, bindRecord bind d.window (.list source es) = .error err ∧
              err.isLength = true) ↔ d.Refuses es.length) ∧
            (es.length < d.leastLength → bindRecord bind d.window (.list source es) =
              .error (.tooShort es.length d.leastLength (.list source es))) ∧
            (d.leastLength < es.length → (∀ f ∈ d.boundFields, f.isRest = false) →
              bindRecord bind d.window (.list source es) =
                .error (.tooLong es.length d.leastLength (.list source es))) ∧
            (¬ d.Refuses es.length → d.TakesApart bind source es)) := by
  rw [compile_of_resolvable hresolved]
  obtain ⟨hfew, hslots⟩ | ⟨hmany, field, hslots⟩ := @slots_eq d.name 0 false _ htags
  · rw [Bool.toNat_false, Nat.zero_add] at hfew
    simp only [Nat.zero_add] at hslots
    rw [hslots]
    refine ⟨iff_of_false ?_ (Nat.not_le.2 hfew), fun _ => ⟨rfl, ?_⟩⟩
    · rintro ⟨err, herr, -⟩
      cases herr
    · intro bind source es
      refine ⟨⟨?_, ?_⟩, bindRecord_tooShort, bindRecord_tooLong, takesApart_window⟩
      · rintro ⟨err, herr, hlength⟩
        by_contra hfits
        cases (not_isLength_of_error hfits herr).1.symm.trans hlength
      · rintro (hshort | ⟨hlong, hnone⟩)
        · exact ⟨_, bindRecord_tooShort hshort, rfl⟩
        · exact ⟨_, bindRecord_tooLong hlong hnone, rfl⟩
  · rw [Bool.toNat_false, Nat.zero_add] at hmany
    rw [hslots]
    exact ⟨iff_of_true ⟨_, rfl, rfl⟩ hmany, fun hfew => absurd hfew (Nat.not_lt.2 hmany)⟩

theorem compile_window_gap :
    let d : RecordDecl := ⟨"R", [⟨"a", .any, "", true⟩, ⟨"skipped", .any, "x", false⟩,
      ⟨"b", .any, "3", true⟩, ⟨"r", .any, "&rest", true⟩]⟩
    let x : Expr := .atom none (.bool true)
    let bind : Expr → Destination → Except BindError Native := fun e _ => .ok (.expr e)
    d.leastLength = 4 ∧ d.compile [] = .ok d.window ∧
      (∃ err, bindRecord bind d.window (.list none [x, x, x]) = .error err ∧
        err.isLength = true) ∧
      d.TakesApart bind none [x, x, x, x, x] := by
  intro d x bind
  have hfields : d.boundFields = [⟨"a", .any, "", true⟩, ⟨"b", .any, "3", true⟩,
    ⟨"r", .any, "&rest", true⟩] := rfl
  have hresolved : d.Resolvable [] := by
    simp [Resolvable, d, Destination.records]
  have htags : ∀ f ∈ d.boundFields, f.WellTagged := by
    rw [hfields]
    simp only [List.forall_mem_cons, List.not_mem_nil, false_implies, implies_true, and_true]
    exact ⟨.inl rfl, .inr (.inl (by decide)), .inr (.inr rfl)⟩
  have hleast : d.leastLength = 4 := by decide
  obtain ⟨hcompile, hbind⟩ := (compile_window [] d hresolved htags).2 (by decide)
  refine ⟨hleast, hcompile, (hbind bind none [x, x, x]).1.2 (.inl ?_),
    (hbind bind none [x, x, x, x, x]).2.2.2 ?_⟩
  · rw [hleast]
    decide
  · rintro (hshort | ⟨-, hnone⟩)
    · rw [hleast] at hshort
      exact absurd hshort (by decide)
    · exact absurd (hnone ⟨"r", .any, "&rest", true⟩ (by simp [hfields])) (by decide)

end RecordDecl

end Formulary
