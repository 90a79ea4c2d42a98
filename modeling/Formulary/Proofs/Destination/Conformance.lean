import Formulary.Proofs.Destination.Fuel
import Formulary.Proofs.Expr.PrintParse
import Mathlib.Data.Set.Basic

/-!
# Binding against its typing rules

The rules say which expressions conform to a type and which values have it, without the order in
which the rules of a binding are tried and without any bound on the steps. A binding to one of the
bindable types succeeds exactly for the expressions that conform, and then its value has the type.
-/
namespace Formulary

/-! ## The rules -/

namespace Plain

/-- The classes that an expression can be bound to. -/
def isBindable : Plain → Bool
  | .string | .int | .float | .bool | .bytes | .symbol | .exprs | .expr | .object => true
  | _ => false

/-- The kinds of the expressions that conform to a class. -/
def takes : Plain → Kind → Bool
  | .string, .string => true
  | .int, .int _ => true
  | .float, .single | .float, .double => true
  | .bool, .bool => true
  | .bytes, .bytes => true
  | .symbol, .symbol => true
  | .exprs, .list => true
  | .expr, _ | .object, _ => true
  | _, _ => false

end Plain

/-- The types that are built from bindable classes and known records. -/
inductive Destination.Bindable (known : Set String) : Destination → Prop where
  | plain {c : Plain} (h : c.isBindable = true) : Bindable known (.plain c)
  | any : Bindable known .any
  | optional {type target : Destination} (h : type.optionalTarget? = some target)
      (ht : Bindable known target) : Bindable known type
  | sequence {style : SequenceStyle} {elem : Destination} (h : Bindable known elem) :
      Bindable known (.sequence style elem)
  | tuples {elem : Destination} (h : Bindable known elem) : Bindable known (.tuples elem)
  | record {name : String} (h : name ∈ known) : Bindable known (.record name)

/-- The known records compile, and their fields are bindable in turn. Records may refer to one
another and to themselves. -/
def Family.Covers (family : Family) (known : Set String) : Prop :=
  ∀ name ∈ known, ∃ shape, family.shape name = .ok shape ∧
    ∀ slot ∈ shape.slots, slot.type.Bindable known

/-- The expressions that conform to a type. A record takes a list whose length fits, if what each
slot takes from it conforms to the type of the field. -/
inductive Conforms (family : Family) : Expr → Destination → Prop where
  | plain {e : Expr} {c : Plain} (h : c.takes e.kind = true) : Conforms family e (.plain c)
  | any {e : Expr} : Conforms family e .any
  | optional {e : Expr} {type target : Destination} (h : type.optionalTarget? = some target)
      (ht : Conforms family e target) : Conforms family e type
  | sequence {source : Source} {es : List Expr} {style : SequenceStyle} {elem : Destination}
      (h : ∀ x ∈ es, Conforms family x elem) :
      Conforms family (.list source es) (.sequence style elem)
  | tuples {source : Source} {es : List Expr} {elem : Destination}
      (h : ∀ x ∈ es, Conforms family x elem) : Conforms family (.list source es) (.tuples elem)
  | record {source : Source} {es : List Expr} {name : String} {shape : Shape}
      (hshape : family.shape name = .ok shape) (hfits : shape.Fits es.length)
      (h : ∀ slot ∈ shape.slots, ∀ x ∈ slot.component? es, Conforms family x slot.type) :
      Conforms family (.list source es) (.record name)

/-- The values of a type. An optional type is filled by a value of its target. -/
inductive HasType (family : Family) : Native → Destination → Prop where
  | string (s : String) : HasType family (.str s) (.plain .string)
  | int (n : Int) : HasType family (.int n) (.plain .int)
  | float (x : Double) : HasType family (.double x) (.plain .float)
  | bool (b : Bool) : HasType family (.bool b) (.plain .bool)
  | bytes (bs : List UInt8) : HasType family (.bytes bs) (.plain .bytes)
  | symbol (s : Symbol) : HasType family (.symbol s) (.plain .symbol)
  | exprs (es : List Expr) : HasType family (.exprs es) (.plain .exprs)
  | expr (e : Expr) : HasType family (.expr e) (.plain .expr)
  | object (v : Native) : HasType family v (.plain .object)
  | any (v : Native) : HasType family v .any
  | optional {v : Native} {type target : Destination} (h : type.optionalTarget? = some target)
      (ht : HasType family v target) : HasType family v type
  | sequence {vs : List Native} {style : SequenceStyle} {elem : Destination}
      (h : ∀ v ∈ vs, HasType family v elem) : HasType family (.list vs) (.sequence style elem)
  | tuples {vs : List Native} {elem : Destination} (h : ∀ v ∈ vs, HasType family v elem) :
      HasType family (.tuple vs) (.tuples elem)
  | record {name : String} {shape : Shape} {fields : List (String × Native)}
      (hshape : family.shape name = .ok shape)
      (hnames : fields.map (·.1) = shape.slots.map (·.field))
      (h : ∀ p ∈ shape.slots.zip fields, HasType family p.2.2 p.1.type) :
      HasType family (.record name fields) (.record name)

/-! ## Slots of a list that fits -/

namespace Shape

variable {shape : Shape} {slot : Slot}

/-- In a list that fits every slot takes something. -/
theorem Fits.exists_component? {es : List Expr} (h : shape.Fits es.length)
    (hslot : slot ∈ shape.slots) : ∃ x, slot.component? es = some x := by
  have hneeded := h.needed_le hslot
  unfold Slot.needed at hneeded
  unfold Slot.component?
  by_cases hrest : slot.isRest
  · exact ⟨_, if_pos hrest⟩
  · rw [if_neg hrest] at hneeded ⊢
    exact ⟨_, List.getElem?_eq_getElem hneeded⟩

end Shape

/-! ## Bindable types -/

namespace Destination

variable {known : Set String} {type target : Destination}

theorem Bindable.of_target (h : type.Bindable known) (ht : type.optionalTarget? = some target) :
    target.Bindable known := by
  cases h with
  | optional h' htarget =>
    cases h'.symm.trans ht
    exact htarget
  | _ => cases ht

theorem Bindable.of_elements {elem : Destination} {isTuple : Bool} (h : type.Bindable known)
    (he : type.elements? = some (elem, isTuple)) : elem.Bindable known := by
  cases h with
  | optional h' =>
    obtain ⟨style, rfl | rfl⟩ := eq_union_of_optionalTarget? h' <;> cases he
  | sequence h | tuples h =>
    cases he
    exact h
  | _ => cases he

theorem Bindable.mem_of_record {name : String} (h : Bindable known (.record name)) :
    name ∈ known := by
  cases h with
  | optional h' => cases h'
  | record h => exact h

theorem eq_expr_of_same {t : Destination} (h : same (.plain .expr) t = true) :
    t = .plain .expr := by
  cases t with
  | plain c =>
    rw [same, beq_iff_eq] at h
    rw [← h]
  | _ => simp [same] at h

theorem target_eq_expr_of_same (hsame : same (.optional (.plain .expr)) type = true)
    (ht : type.optionalTarget? = some target) : target = .plain .expr := by
  have hne : same (.plain .expr) (.plain .none) = false := by simp [same]
  rw [optional_expr] at hsame
  obtain ⟨style, rfl | rfl⟩ := eq_union_of_optionalTarget? ht
  all_goals
    simp only [same, within, List.any_cons, List.any_nil, hne, Bool.false_or, Bool.or_false,
      Bool.and_eq_true] at hsame
    exact eq_expr_of_same hsame.1.1

/-- Only expressions and optional expressions are kept as they are. -/
theorem registered_default {custom : CustomBinder} (h : Registry.default.get? type = some custom) :
    type = .plain .expr ∨ same (.optional (.plain .expr)) type = true := by
  unfold Registry.get? at h
  split_ifs at h
  obtain ⟨entry, hentry, -⟩ := Option.map_eq_some_iff.1 h
  have hsame := List.find?_some hentry
  have hmem := List.mem_of_find?_eq_some hentry
  simp only [Registry.default, List.mem_cons, List.not_mem_nil, or_false] at hmem
  rcases hmem with rfl | rfl
  · exact .inl (eq_expr_of_same hsame)
  · exact .inr hsame

theorem Bindable.registered {custom : CustomBinder} (h : type.Bindable known)
    (hc : Registry.default.get? type = some custom) :
    type = .plain .expr ∨ type.optionalTarget? = some (.plain .expr) := by
  refine (registered_default hc).imp_right fun hsame => ?_
  cases h with
  | optional ht => rw [ht, target_eq_expr_of_same hsame ht]
  | _ =>
    rw [optional_expr] at hsame
    simp [same] at hsame

theorem Bindable.same_none (h : type.Bindable known) :
    same type (.plain .none) = false ∧ same (.plain .none) type = false := by
  cases h with
  | @plain c hc => cases c <;> simp_all [same, Plain.isBindable]
  | optional h =>
    obtain ⟨style, rfl | rfl⟩ := eq_union_of_optionalTarget? h <;> simp [same]
  | _ => simp [same]

theorem optionalTarget?_pair (style : UnionStyle) (h : same (.plain .none) target = false) :
    (union style [target, .plain .none]).optionalTarget? = some target ∧
      (union style [.plain .none, target]).optionalTarget? = some target := by
  have htarget : target.isNone = false := by
    unfold isNone
    split
    · simp [same] at h
    · rfl
  have hnone : (plain .none).isNone = true := rfl
  simp [optionalTarget?, htarget, hnone]

/-- The optional type of an optional type is optional once. -/
theorem Bindable.optional_target (h : type.Bindable known) :
    ∃ t, (Destination.optional type).optionalTarget? = some t ∧
      (t = type ∨ type.optionalTarget? = some t) := by
  have hnone : same (.plain .none) (.plain .none) = true := by simp [same]
  have hself := h.same_none
  cases h with
  | @optional _ t ht htype =>
    obtain ⟨hl, hr⟩ := htype.same_none
    refine ⟨t, ?_, .inr ht⟩
    obtain ⟨style, rfl | rfl⟩ := eq_union_of_optionalTarget? ht <;>
      simp [Destination.optional, unionOf, members, distinct, hnone, hl, hr, optionalTarget?_pair]
  | _ =>
    refine ⟨_, ?_, .inl rfl⟩
    simp [Destination.optional, unionOf, members, distinct, hself, optionalTarget?_pair]

theorem Bindable.toOptional (h : type.Bindable known) :
    (Destination.optional type).Bindable known := by
  obtain ⟨t, ht, rfl | ht'⟩ := h.optional_target
  · exact .optional ht h
  · exact .optional ht (h.of_target ht')

end Destination

theorem conforms_iff_of_target {family : Family} {e : Expr} {type target : Destination}
    (h : type.optionalTarget? = some target) :
    Conforms family e type ↔ Conforms family e target := by
  constructor
  · intro hc
    cases hc with
    | optional h' ht =>
      cases h'.symm.trans h
      exact ht
    | _ => cases h
  · exact .optional h

/-- An expression conforms to an optional type if it conforms to the type. -/
theorem conforms_optional_iff {family : Family} {known : Set String} {e : Expr}
    {type : Destination} (h : type.Bindable known) :
    Conforms family e (.optional type) ↔ Conforms family e type := by
  obtain ⟨t, ht, rfl | ht'⟩ := h.optional_target
  · exact conforms_iff_of_target ht
  · rw [conforms_iff_of_target ht, conforms_iff_of_target ht']

namespace RecordDecl

/-- The tag `&rest` is the text of the marker, so that reading it gives the marker back. -/
theorem parse_restMarker :
    ∃ source, Expr.parse "" "&rest".toList = .ok (.atom source (.symbol restMarker)) := by
  have hreadable : (Expr.atom none (.symbol restMarker)).Readable :=
    Expr.leaves_atom.2
      ⟨⟨by decide, List.all_eq_true.1 (by decide), by decide⟩, by decide, by decide⟩
  obtain ⟨tag, hparse, hbare⟩ := Expr.exists_parse_of_readable "" hreadable
  have htext : "&rest".toList = (Expr.atom none (.symbol restMarker)).chars := by decide
  rw [htext]
  cases tag with
  | list => simp [Expr.bare] at hbare
  | atom source a =>
    simp only [Expr.bare, Expr.atom.injEq, true_and] at hbare
    subst hbare
    exact ⟨source, hparse⟩

theorem slot_rest (record : String) (place : Nat) {f : FieldDecl} (htag : f.tag = "&rest") :
    slot record place false f = .ok ⟨f.name, f.type.plainly, place, true⟩ := by
  obtain ⟨source, hparse⟩ := parse_restMarker
  unfold slot
  rw [htag, hparse]
  simp [Expr.symbol?]

end RecordDecl

namespace Binder

variable {family : Family} {known : Set String} {n : Nat} {e : Expr} {type : Destination}
  {v : Native}

/-! ## Soundness -/

theorem assign?_sound (htype : type.Bindable known) (h : type.assign? e = some v) :
    Conforms family e type ∧ HasType family v type := by
  unfold Destination.assign? at h
  split at h
  case h_1 => exact ⟨.any, .any v⟩
  case h_2 => exact ⟨.plain rfl, .object v⟩
  case h_7 =>
    cases htype with
    | plain hc => cases hc
    | optional h' => cases h'
  case h_12 => cases h
  all_goals
    cases h
    refine ⟨.plain rfl, ?_⟩
    constructor

theorem names_of_filled {bound : Expr → Destination → Native → Prop} {es : List Expr}
    {slots : List Slot} {fields : List (String × Native)}
    (h : List.Forall₂ (Filled bound es) slots fields) :
    fields.map (·.1) = slots.map (·.field) := by
  induction h with
  | nil => rfl
  | cons hfield _ ih => rw [List.map_cons, List.map_cons, hfield.1, ih]

theorem bindWithin_sound (hfamily : family.Covers known) (htype : type.Bindable known)
    (h : bindWithin { family := family } n e type = .ok v) :
    Conforms family e type ∧ HasType family v type := by
  induction n generalizing e type v with
  | zero => cases h
  | succ n ih =>
    rw [bindWithin_succ_ok_iff] at h
    cases h with
    | custom hc h =>
      rw [default_given hc] at h
      cases h
      rcases htype.registered hc with rfl | ht
      · exact ⟨.plain rfl, .expr e⟩
      · exact ⟨.optional ht (.plain rfl), .optional ht (.expr e)⟩
    | value _ h => exact assign?_sound htype h
    | target _ ht hrest =>
      obtain ⟨hconf, hval⟩ := ih (htype.of_target ht) hrest
      exact ⟨.optional ht hconf, .optional ht hval⟩
    | @record source es name shape fields _ hshape hfits hfilled =>
      obtain ⟨shape', hshape', hslots⟩ := hfamily name htype.mem_of_record
      cases hshape'.symm.trans hshape
      rw [(Family.shape_ok hshape).1]
      refine ⟨.record hshape hfits ?_, .record hshape (names_of_filled hfilled) ?_⟩
      · intro slot hslot x hx
        obtain ⟨field, -, x', hx', hbound⟩ := exists_forall₂_iff.1 ⟨_, hfilled⟩ slot hslot
        cases hx'.symm.trans hx
        exact (ih (hslots slot hslot) hbound).1
      · rintro ⟨slot, field⟩ hmem
        obtain ⟨-, x, -, hbound⟩ := List.forall₂_zip hfilled hmem
        exact (ih (hslots slot (List.of_mem_zip hmem).1) hbound).2
    | @elements source es _ elem isTuple vs _ hseq hitems =>
      have helem := htype.of_elements hseq
      have hes : ∀ x ∈ es, Conforms family x elem := by
        intro x hx
        obtain ⟨v, hv⟩ := exists_forall₂_iff.1 ⟨_, hitems⟩ x hx
        exact (ih helem hv).1
      have hvs : ∀ v ∈ vs, HasType family v elem := by
        intro v hv
        obtain ⟨x, hx⟩ := exists_forall₂_iff.1 ⟨_, List.Forall₂.flip hitems⟩ v hv
        exact (ih helem hx).2
      cases htype with
      | optional h =>
        obtain ⟨style, rfl | rfl⟩ := Destination.eq_union_of_optionalTarget? h <;> cases hseq
      | sequence =>
        cases hseq
        exact ⟨.sequence hes, .sequence hvs⟩
      | tuples =>
        cases hseq
        exact ⟨.tuples hes, .tuples hvs⟩
      | _ => cases hseq

/-! ## Completeness -/

theorem exists_assign?_of_takes {c : Plain} (h : c.takes e.kind = true) (hc : c ≠ .expr) :
    ∃ v, (Destination.plain c).assign? e = some v := by
  cases e with
  | atom source a =>
    cases c <;> cases a <;> simp_all [Plain.takes, Expr.kind, Atom.kind, Destination.assign?]
  | list source es => cases c <;> simp_all [Plain.takes, Expr.kind, Destination.assign?]

/-- A step is enough if the parts succeed, whether or not a binder is registered. -/
theorem succeeds_of_free (h : Registry.default.get? type = none → Succeeds family (n + 1) e type) :
    Succeeds family (n + 1) e type := by
  cases hget : Registry.default.get? type with
  | none => exact h hget
  | some custom => exact ⟨_, bindWithin_succ_ok_iff.2 (.custom hget (default_given hget))⟩

theorem exists_common {α : Type} {p : α → Nat → Prop} {as : List α}
    (h : ∀ a ∈ as, ∃ n, p a n) (hmono : ∀ a n m, n ≤ m → p a n → p a m) :
    ∃ n, ∀ a ∈ as, p a n := by
  induction as with
  | nil => exact ⟨0, by simp⟩
  | cons a as ih =>
    obtain ⟨⟨n, hn⟩, has⟩ := List.forall_mem_cons.1 h
    obtain ⟨m, hm⟩ := ih has
    refine ⟨max n m, List.forall_mem_cons.2 ⟨hmono _ _ _ (Nat.le_max_left n m) hn, ?_⟩⟩
    intro a' ha'
    exact hmono _ _ _ (Nat.le_max_right n m) (hm a' ha')

theorem exists_succeeds_elements {source : Source} {es : List Expr} {elem : Destination}
    {isTuple : Bool} (hseq : type.elements? = some (elem, isTuple))
    (h : ∀ x ∈ es, ∃ n, Succeeds family n x elem) :
    ∃ n, Succeeds family n (.list source es) type := by
  obtain ⟨n, hn⟩ := exists_common h fun x n m hle hx => hx.mono hle
  obtain ⟨vs, hvs⟩ := exists_forall₂_iff.2 hn
  refine ⟨n + 1, succeeds_of_free fun hfree => ?_⟩
  exact ⟨_, bindWithin_succ_ok_iff.2 (.elements hfree hseq hvs)⟩

theorem exists_succeeds_of_conforms (h : Conforms family e type) :
    ∃ n, Succeeds family n e type := by
  induction h with
  | @plain e c h =>
    refine ⟨1, succeeds_of_free fun hfree => ?_⟩
    have hc : c ≠ .expr := by
      rintro rfl
      simp [Registry.get?, Registry.default, Destination.isKey, Destination.same] at hfree
    obtain ⟨v, hv⟩ := exists_assign?_of_takes h hc
    exact ⟨v, bindWithin_succ_ok_iff.2 (.value hfree hv)⟩
  | @any e =>
    refine ⟨1, succeeds_of_free fun hfree => ?_⟩
    exact ⟨_, bindWithin_succ_ok_iff.2 (.value hfree rfl)⟩
  | optional ht _ ih =>
    obtain ⟨n, v, hv⟩ := ih
    refine ⟨n + 1, succeeds_of_free fun hfree => ?_⟩
    exact ⟨v, bindWithin_succ_ok_iff.2 (.target hfree ht hv)⟩
  | sequence _ ih => exact exists_succeeds_elements rfl ih
  | tuples _ ih => exact exists_succeeds_elements rfl ih
  | @record source es name shape hshape hfits _ ih =>
    have hslots : ∀ slot ∈ shape.slots, ∃ n, ∃ field,
        Filled (fun x t v => bindWithin { family := family } n x t = .ok v) es slot field := by
      intro slot hslot
      obtain ⟨x, hx⟩ := hfits.exists_component? hslot
      obtain ⟨n, v, hv⟩ := ih slot hslot x hx
      exact ⟨n, (slot.field, v), rfl, x, hx, hv⟩
    obtain ⟨n, hn⟩ := exists_common hslots (by
      rintro slot n m hle ⟨field, hname, x, hx, hv⟩
      exact ⟨field, hname, x, hx, bindWithin_mono hle hv⟩)
    obtain ⟨fields, hfields⟩ := exists_forall₂_iff.2 hn
    refine ⟨n + 1, succeeds_of_free fun hfree => ?_⟩
    exact ⟨_, bindWithin_succ_ok_iff.2 (.record hfree hshape hfits hfields)⟩

/-- Binding succeeds exactly for the expressions that conform to the type, and its value has the
type. The optional type is bindable in turn, and the same expressions conform to it. -/
theorem bind_iff_conforms (hfamily : family.Covers known) (htype : type.Bindable known) :
    ((∃ v, bind { family := family } e type = .ok v) ↔ Conforms family e type) ∧
      (∀ v, bind { family := family } e type = .ok v → HasType family v type) ∧
      (Destination.optional type).Bindable known ∧
      (Conforms family e (.optional type) ↔ Conforms family e type) := by
  refine ⟨⟨?_, ?_⟩, ?_, htype.toOptional, conforms_optional_iff htype⟩
  · rintro ⟨v, hv⟩
    exact (bindWithin_sound hfamily htype hv).1
  · intro h
    obtain ⟨n, hn⟩ := exists_succeeds_of_conforms h
    exact hn.of_enoughFuel
  · intro v hv
    exact (bindWithin_sound hfamily htype hv).2

def argType : Destination := .sequence .list (.union .piped [.record "Call", .plain .none])

/-- A record of a symbol and any number of records of its own kind, each of which is optional. -/
def callDecl : RecordDecl :=
  ⟨"Call", [⟨"head", .plain .symbol, "", true⟩, ⟨"args", argType, "&rest", true⟩]⟩

def calls : Family := [callDecl]

def callSlots : List Slot :=
  [⟨"head", .plain .symbol, 0, false⟩, ⟨"args", argType, 1, true⟩]

theorem shape_calls : calls.shape "Call" = .ok ⟨"Call", callSlots⟩ := by
  have hresolved : (callDecl.fields.flatMap (·.type.records)).find?
      (fun name => !calls.any (·.name == name)) = none := by decide +kernel
  have hargs : argType.plainly = argType := by
    simp [argType, Destination.plainly, Destination.plainlyAll, Destination.unionOf,
      Destination.members, Destination.distinct, Destination.same]
  have hrest := RecordDecl.slot_rest "Call" 1 (f := ⟨"args", argType, "&rest", true⟩) rfl
  dsimp only at hrest
  rw [hargs] at hrest
  have hslots : RecordDecl.slots "Call" 0 false callDecl.fields = .ok callSlots :=
    RecordDecl.slots_cons rfl (RecordDecl.slots_cons hrest rfl)
  exact Family.shape_of_slots (d := callDecl) rfl hresolved hslots

theorem calls_covers : calls.Covers {"Call"} := by
  rintro name rfl
  refine ⟨_, shape_calls, ?_⟩
  intro slot hslot
  rcases List.mem_pair.1 hslot with rfl | rfl
  · exact .plain rfl
  · exact .sequence (.optional rfl (.record rfl))

theorem conforms_call {source : Source} {f : Symbol} {args : List Expr}
    (h : ∀ x ∈ args, Conforms calls x (.record "Call")) :
    Conforms calls (.list source (.atom none (.symbol f) :: args)) (.record "Call") := by
  refine .record shape_calls ⟨Nat.le_add_left _ _, fun most hmost => by cases hmost⟩ ?_
  intro slot hslot x hx
  rcases List.mem_pair.1 hslot with rfl | rfl
  · cases hx
    exact .plain rfl
  · cases hx
    exact .sequence fun x hx => .optional rfl (h x hx)

theorem bind_iff_conforms_calls :
    let e : Expr := .list none [.atom none (.symbol ⟨"f", ""⟩),
      .list none [.atom none (.symbol ⟨"x", ""⟩)]]
    calls.Covers {"Call"} ∧ Destination.Bindable {"Call"} (.record "Call") ∧
      Conforms calls e (.record "Call") ∧
      ∃ v, bind { family := calls } e (.record "Call") = .ok v ∧
        HasType calls v (.record "Call") := by
  intro e
  have htype : Destination.Bindable {"Call"} (.record "Call") := .record rfl
  have he : Conforms calls e (.record "Call") := conforms_call (by simp [conforms_call])
  obtain ⟨v, hv⟩ := (bind_iff_conforms calls_covers htype).1.2 he
  exact ⟨calls_covers, htype, he, v, hv, (bind_iff_conforms calls_covers htype).2.1 v hv⟩

end Binder

end Formulary
