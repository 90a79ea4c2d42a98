import Formulary.Environment

/-!
# The conditional form

`(if TEST THEN [ELSE])` is taken apart as a record of the operator, the test and the list of the
clauses that follow, of which there are one or two. The test and the clauses are read off the record
and compiled from left to right. What the record holds stands in the form that it was bound from, so
that its parts are smaller than the form.
-/
namespace Formulary

namespace Native

def field? (name : String) : Native → Option Native
  | .record _ fields => fields.lookup name
  | _ => Option.none

def expr? : Native → Option Expr
  | .expr e => some e
  | _ => Option.none

/-- The items of a list, if all of them are expressions. -/
def exprs? : Native → Option (List Expr)
  | .list items => items.mapM expr?
  | _ => Option.none

end Native

namespace Conditional

def parts : RecordDecl where
  name := "IfElseForm"
  fields := [
    { name := "op", type := .plain .symbol },
    { name := "test", type := .plain .expr },
    { name := "rest", type := .sequence .list (.plain .expr), tag := "&rest" }]

def binder : Binder := { family := [parts] }

/-- The record that a conditional form binds to. -/
def record (operator : Native) (test : Expr) (rest : List Expr) : Native :=
  .record parts.name [("op", operator), ("test", .expr test), ("rest", .list (rest.map .expr))]

/-- The test and the clauses that a record holds. -/
def read? (v : Native) : Option (Expr × List Expr) := do
  let test ← (← v.field? "test").expr?
  let rest ← (← v.field? "rest").exprs?
  return (test, rest)

/-! ## What a form binds to -/

/-- Types that equal none of the two registered ones have no custom binder. -/
theorem get?_eq_none {type : Destination} (hplain : Destination.same (.plain .expr) type = false)
    (hoptional : Destination.same (.optional (.plain .expr)) type = false) :
    binder.registry.get? type = none := by
  simp [binder, Registry.get?, Registry.default, hplain, hoptional]

section Binding

variable {fuel : Nat} {x : Expr} {v : Native}

theorem bindWithin_expr (h : binder.bindWithin fuel x (.plain .expr) = .ok v) : v = .expr x := by
  have hfound : binder.registry.get? (.plain .expr) = some fun e t => bindOpaque (some e) t := by
    simp [binder, Registry.get?, Registry.default, Destination.isKey, Destination.same]
  cases fuel with
  | zero => cases h
  | succ fuel =>
    simp only [Binder.bindWithin, hfound] at h
    cases h
    rfl

theorem bindElements_expr {type : Destination} {index : Nat} {es : List Expr} {vs : List Native}
    (h : Binder.bindElements (binder.bindWithin fuel · (.plain .expr)) type index es = .ok vs) :
    vs = es.map .expr := by
  induction es generalizing index vs with
  | nil =>
    cases h
    rfl
  | cons e es ih =>
    rw [Binder.bindElements] at h
    split at h
    · cases h
    next w hw =>
      generalize hrest : Binder.bindElements _ type (index + 1) es = x at h
      cases x with
      | error cause => cases h
      | ok ws =>
        cases h
        rw [bindWithin_expr hw, ih hrest, List.map_cons]

theorem bindWithin_exprs
    (h : binder.bindWithin fuel x (.sequence .list (.plain .expr)) = .ok v) :
    ∃ es, x.elems? = some es ∧ v = .list (es.map .expr) := by
  have hfree : binder.registry.get? (.sequence .list (.plain .expr)) = none :=
    get?_eq_none (by simp [Destination.same])
      (by simp [Destination.optional_expr, Destination.same])
  cases fuel with
  | zero => cases h
  | succ fuel =>
    simp only [Binder.bindWithin, hfree, Destination.assign?, Destination.optionalTarget?,
      Destination.elements?, Binder.bindSequence] at h
    cases hes : x.elems? with
    | none =>
      rw [hes] at h
      cases h
    | some es =>
      simp only [hes] at h
      generalize hitems : Binder.bindElements _ _ 0 es = items at h
      cases items with
      | error cause => cases h
      | ok vs =>
        cases h
        exact ⟨es, rfl, by rw [bindElements_expr hitems]; rfl⟩

end Binding

theorem slot_ok {record : String} {place : Nat} {hasRest : Bool} {f : FieldDecl} {s : Slot}
    (h : RecordDecl.slot record place hasRest f = .ok s) :
    s.field = f.name ∧ s.type = f.type.plainly := by
  unfold RecordDecl.slot at h
  split at h
  · cases h
    exact ⟨rfl, rfl⟩
  · split at h
    · cases h
    · split at h <;> cases h
      exact ⟨rfl, rfl⟩
    · split at h
      · split at h <;> cases h
        exact ⟨rfl, rfl⟩
      · cases h

theorem slots_parts : RecordDecl.slots parts.name 0 false parts.fields =
    (RecordDecl.slot parts.name 2 false
      { name := "rest", type := .sequence .list (.plain .expr), tag := "&rest" }).map fun rest =>
        [⟨"op", .plain .symbol, 0, false⟩, ⟨"test", .plain .expr, 1, false⟩, rest] := by
  have hop : RecordDecl.slot "IfElseForm" 0 false { name := "op", type := .plain .symbol } =
      .ok ⟨"op", .plain .symbol, 0, false⟩ := rfl
  have htest : RecordDecl.slot "IfElseForm" 1 false { name := "test", type := .plain .expr } =
      .ok ⟨"test", .plain .expr, 1, false⟩ := rfl
  simp only [parts, RecordDecl.slots, hop, htest, bind, Except.bind, Bool.or_self, Nat.zero_add]
  cases RecordDecl.slot "IfElseForm" 2 false
    { name := "rest", type := .sequence .list (.plain .expr), tag := "&rest" } <;> rfl

/-- The test is the second element. How the tag of the rest is read does not matter here. -/
theorem exists_of_shape {shape : Shape} (h : Family.shape [parts] parts.name = .ok shape) :
    ∃ rest : Slot, rest.field = "rest" ∧ rest.type = .sequence .list (.plain .expr) ∧
      shape = ⟨parts.name,
        [⟨"op", .plain .symbol, 0, false⟩, ⟨"test", .plain .expr, 1, false⟩, rest]⟩ := by
  have hslots : Family.shape [parts] parts.name =
      (RecordDecl.slots parts.name 0 false parts.fields).map (⟨parts.name, ·⟩) := rfl
  rw [hslots, slots_parts] at h
  generalize hrest : RecordDecl.slot _ _ _ _ = x at h
  cases x with
  | error cause => cases h
  | ok rest =>
    cases h
    obtain ⟨hfield, htype⟩ := slot_ok hrest
    exact ⟨rest, hfield, htype, rfl⟩

theorem get?_parts : binder.registry.get? (.record parts.name) = none :=
  get?_eq_none (by simp [Destination.same]) (by simp [Destination.optional_expr, Destination.same])

/-- What a slot takes is an element of the form, or a list of some of them. -/
theorem size_lt_of_component? {slot : Slot} {source : Source} {elems es : List Expr} {x : Expr}
    (hx : slot.component? elems = some x) (hes : x.elems? = some es) :
    ∀ e ∈ es, e.size < (Expr.list source elems).size := by
  intro e he
  unfold Slot.component? at hx
  split at hx
  · cases hx
    cases hes
    exact Expr.size_lt_of_mem (List.mem_of_mem_drop he) source
  · cases x with
    | atom s a => cases hes
    | list s fs =>
      cases hes
      exact Nat.lt_trans (Expr.size_lt_of_mem he s)
        (Expr.size_lt_of_mem (List.mem_of_getElem? hx) source)

/-- A record has the fields of the declaration. The test is an element of the form; the rest is made
of later elements, or of what one of them is made of. -/
theorem bind_ok {source : Source} {elems : List Expr} {v : Native}
    (h : binder.bind (.list source elems) (.record parts.name) = .ok v) :
    ∃ operator test rest, v = record operator test rest ∧
      test.size < (Expr.list source elems).size ∧
        ∀ e ∈ rest, e.size < (Expr.list source elems).size := by
  unfold Binder.bind at h
  generalize binder.enoughFuel _ _ = fuel at h
  cases fuel with
  | zero => cases h
  | succ fuel =>
    simp only [Binder.bindWithin, get?_parts, Destination.assign?, Destination.optionalTarget?] at h
    split at h
    · cases h
    next shape hshape =>
      obtain ⟨slot, hfield, htype, rfl⟩ := exists_of_shape hshape
      simp only [Binder.bindRecord, Expr.elems?, Binder.bindSlots, bind_ok_iff,
        Binder.bindSlot_ok_iff, hfield, htype] at h
      obtain ⟨_, -, _, ⟨op, -, _, ⟨t, ⟨x, hx, ht⟩, _, ⟨r, ⟨y, hy, hr⟩, _, hnil, hrest⟩, htest⟩,
        hop⟩, h⟩ := h
      obtain ⟨es, hes, rfl⟩ := bindWithin_exprs hr
      obtain rfl := bindWithin_expr ht
      cases hnil
      cases hrest
      cases htest
      cases hop
      cases h
      exact ⟨op, x, es, rfl, Expr.size_lt_of_mem (List.mem_of_getElem? hx) source,
        size_lt_of_component? hy hes⟩

theorem read?_record (operator : Native) (test : Expr) (rest : List Expr) :
    read? (record operator test rest) = some (test, rest) := by
  have hrest : (rest.map Native.expr).mapM Native.expr? = some rest := by
    induction rest with
    | nil => rfl
    | cons e rest ih => rw [List.map_cons, List.mapM_cons, ih]; rfl
  simp [read?, record, Native.field?, Native.expr?, Native.exprs?, List.lookup_cons, hrest]

/-! ## The test and the clauses -/

/-- The test and the clauses of a form, all of them smaller than the form. -/
structure Clauses (size : Nat) where
  test : Expr
  rest : List Expr
  test_lt : test.size < size
  rest_lt : ∀ e ∈ rest, e.size < size

theorem read?_of_bind {source : Source} {elems : List Expr} {v : Native}
    (h : binder.bind (.list source elems) (.record parts.name) = .ok v) :
    ∃ c : Clauses (Expr.list source elems).size, read? v = some (c.test, c.rest) := by
  obtain ⟨operator, test, rest, rfl, htest, hrest⟩ := bind_ok h
  exact ⟨⟨test, rest, htest, hrest⟩, read?_record operator test rest⟩

/-- The clauses as they stand in the record that a form binds to. -/
def Clauses.ofBound {source : Source} {elems : List Expr} {v : Native}
    (h : binder.bind (.list source elems) (.record parts.name) = .ok v) :
    Clauses (Expr.list source elems).size :=
  match hread : read? v with
  | some (test, rest) => {
      test, rest
      test_lt := by
        obtain ⟨c, hc⟩ := read?_of_bind h
        cases hread.symm.trans hc
        exact c.test_lt
      rest_lt := by
        obtain ⟨c, hc⟩ := read?_of_bind h
        cases hread.symm.trans hc
        exact c.rest_lt }
  | none => absurd hread (by
      obtain ⟨c, hc⟩ := read?_of_bind h
      simp [hc])

/-- One or two clauses follow the test; they are compiled in this order, the test first. -/
def Clauses.expand {size : Nat} (source : Source) : Clauses size →
    Except CompileError (Expansion size)
  | ⟨test, [consequent], htest, hrest⟩ =>
    .ok (.clause "TEST" test htest fun test =>
      .clause "THEN" consequent (hrest _ (by simp)) fun consequent =>
        .done (.ifThen source test consequent))
  | ⟨test, [consequent, alternative], htest, hrest⟩ =>
    .ok (.clause "TEST" test htest fun test =>
      .clause "THEN" consequent (hrest _ (by simp)) fun consequent =>
        .clause "ELSE" alternative (hrest _ (by simp)) fun alternative =>
          .done (.ifThenElse source test consequent alternative))
  | ⟨_, [], _, _⟩ => .error .noConsequent
  | ⟨_, _ :: _ :: _ :: _, _, _⟩ => .error .extraClause

def expand (source : Source) (elems : List Expr) :
    Except CompileError (Expansion (Expr.list source elems).size) :=
  match h : binder.bind (.list source elems) (.record parts.name) with
  | .error cause => .error (.badConditional cause)
  | .ok _ => (Clauses.ofBound h).expand source

def specialForm : SpecialForm := ⟨⟨"if", Symbol.formulaSpace⟩, "if", expand⟩

end Conditional

end Formulary
