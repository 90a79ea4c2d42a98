import Formulary.Proofs.Expr.Built

/-!
# Native values and their expressions

A native value is built of leaves by lists and tuples. Its expression has the same leaves in the
same order, each of the kind that the type of the leaf chooses, and reading it back gives the value
again, but for types that expressions do not tell apart. The value has no expression if one of its
leaves has none, and then the error is that of the first such leaf.
-/
namespace Formulary

/-- The error of a computation that fails. -/
def error? {ε α : Type} : Except ε α → Option ε
  | .ok _ => none
  | .error e => some e

theorem error?_eq_some_iff {ε α : Type} {x : Except ε α} {e : ε} :
    error? x = some e ↔ x = .error e := by
  cases x <;> simp [error?]

namespace Expr

mutual

/-- The value of an atom; a list is read back as the list of what its elements are read back as. -/
def readBack : Expr → Native
  | .atom _ a => a.native
  | .list _ es => .list (readBackAll es)

def readBackAll : List Expr → List Native
  | [] => []
  | e :: es => readBack e :: readBackAll es

end

mutual

/-- The kinds of the atoms, from left to right. -/
def atomKinds : Expr → List Kind
  | .atom _ a => [a.kind]
  | .list _ es => atomKindsAll es

def atomKindsAll : List Expr → List Kind
  | [] => []
  | e :: es => atomKinds e ++ atomKindsAll es

end

theorem readBackAll_eq (es : List Expr) : readBackAll es = es.map readBack := by
  induction es with
  | nil => rfl
  | cons e es ih => rw [readBackAll, ih, List.map_cons]

theorem atomKindsAll_eq (es : List Expr) : atomKindsAll es = es.flatMap atomKinds := by
  induction es with
  | nil => rfl
  | cons e es ih => rw [atomKindsAll, ih, List.flatMap_cons]

end Expr

/-- The kind with the sign of the width that has 32 bits if they are enough for it, and else 64. The
types that have no kind of their own count as signed ones of 64 bits. -/
def WordKind.narrowest (kind : WordKind) : IntKind :=
  if kind = .longlong ∨ kind = .ulonglong then .int64
  else if kind.min < 0 then if kind.max < 2 ^ 31 then .int32 else .int64
  else if kind.max < 2 ^ 32 then .uint32 else .uint64

namespace Native

/-- Lists and tuples have items, other values are leaves. -/
def IsLeaf : Native → Prop
  | .list _ | .tuple _ => False
  | _ => True

mutual

/-- The leaves of a value, from left to right. -/
def leaves : Native → List Native
  | .list items | .tuple items => leavesAll items
  | v => [v]

def leavesAll : List Native → List Native
  | [] => []
  | v :: vs => leaves v ++ leavesAll vs

end

mutual

/-- The value up to the types that expressions do not tell apart: tuples become lists, byte strings
that can be written to become byte strings, and sized numbers plain ones, singles apart. Expressions
among the items are read back as well. -/
def settled : Native → Native
  | .list items | .tuple items => .list (settledAll items)
  | .buffer bs => .bytes bs
  | .sizedInt _ n => .int n
  | .sizedBool b => .bool b
  | .sizedDouble x => .double x
  | .half x => .double (x.convert .double)
  | .expr e => e.readBack
  | .exprs es => .list (es.map Expr.readBack)
  | v => v

def settledAll : List Native → List Native
  | [] => []
  | v :: vs => settled v :: settledAll vs

end

mutual

/-- The kinds that the types of the leaves choose, from left to right. -/
def kinds : Native → List Kind
  | .list items | .tuple items => kindsAll items
  | .bool _ | .sizedBool _ => [.bool]
  | .int _ => [.int .int64]
  | .sizedInt kind _ => [.int kind.narrowest]
  | .single _ => [.single]
  | .double _ | .sizedDouble _ | .half _ => [.double]
  | .str _ => [.string]
  | .bytes _ | .buffer _ => [.bytes]
  | .symbol _ => [.symbol]
  | .expr e => e.atomKinds
  | .exprs es => es.flatMap Expr.atomKinds
  | .none | .mapping _ | .record _ _ => []

def kindsAll : List Native → List Kind
  | [] => []
  | v :: vs => kinds v ++ kindsAll vs

end

/-- The types that have no kind. -/
inductive Unsupported : Native → Prop
  | none : Unsupported .none
  | mapping (fields : List (String × Native)) : Unsupported (.mapping fields)
  | record (name : String) (fields : List (String × Native)) : Unsupported (.record name fields)

/-- The integers that no width gives a kind: plain ones, and those of the two types that are not
listed. They become signed integers of 64 bits. -/
def plain? : Native → Option Int
  | .int n | .sizedInt .longlong n | .sizedInt .ulonglong n => some n
  | _ => Option.none

/-- The leaves that have no expression, and how they fail: integers that need more than the 64 bits
they are given, and values of types without a kind. A leaf that cannot be shown in the error is a
fault of its value. -/
inductive Refused : Native → FailureKind → Prop
  | integer {v : Native} {n : Int} (hv : v.plain? = some n) (h : ¬ (-2 ^ 63 ≤ n ∧ n < 2 ^ 63)) :
      Refused v (if DigitLimit.standard.admitsInt n then .overflow else .value)
  | type {v : Native} (h : Unsupported v) :
      Refused v (if v.within .standard then .type else .value)

/-- A sized integer lies within its width. -/
def Fits : Native → Prop
  | .sizedInt kind n => kind.min ≤ n ∧ n ≤ kind.max
  | _ => True

/-- The value fails at the leaf: it is the first one that is refused, and the error is its own. -/
structure FailsAt (v : Native) (before : List Native) (l : Native) (cause : ConstructError) :
    Prop where
  leaves : ∃ after, v.leaves = before ++ l :: after
  first : ∀ b ∈ before, ∀ kind, ¬ b.Refused kind
  refused : l.Refused cause.kind
  leaf_error : Expr.ofNative l = .error cause
  error : Expr.ofNative v = .error cause

/-- Induction over the items of lists and tuples. -/
@[elab_as_elim]
theorem items_induction {motive : Native → Prop} (leaf : ∀ v, v.IsLeaf → motive v)
    (list : ∀ items, (∀ v ∈ items, motive v) → motive (.list items))
    (tuple : ∀ items, (∀ v ∈ items, motive v) → motive (.tuple items)) (v : Native) :
    motive v := by
  cases v with
  | list items => exact list items fun v _ => items_induction leaf list tuple v
  | tuple items => exact tuple items fun v _ => items_induction leaf list tuple v
  | _ => exact leaf _ trivial
termination_by v

variable {v : Native}

theorem leaves_of_isLeaf (h : v.IsLeaf) : v.leaves = [v] := by
  cases v with
  | list | tuple => cases h
  | _ => simp only [leaves]

theorem leavesAll_eq (vs : List Native) : leavesAll vs = vs.flatMap leaves := by
  induction vs with
  | nil => rfl
  | cons v vs ih => rw [leavesAll, ih, List.flatMap_cons]

theorem isLeaf_of_mem_leaves {l : Native} (h : l ∈ v.leaves) : l.IsLeaf := by
  induction v using items_induction with
  | leaf v hv =>
    rw [leaves_of_isLeaf hv, List.mem_singleton] at h
    exact h ▸ hv
  | list items ih | tuple items ih =>
    rw [leaves, leavesAll_eq, List.mem_flatMap] at h
    obtain ⟨item, hitem, hl⟩ := h
    exact ih item hitem hl

end Native

namespace Expr

variable {v l : Native} {vs : List Native} {e : Expr} {es : List Expr}

/-! ## Values that have an expression -/

theorem intKind_eq_narrowest (kind : WordKind) : kind.intKind = kind.narrowest := by
  cases kind <;> rfl

theorem ofNative_leaf (hv : v.IsLeaf) (h : ofNative v = .ok e) :
    e.readBack = v.settled ∧ e.atomKinds = v.kinds := by
  cases v with
  | list | tuple => cases hv
  | int n =>
    obtain ⟨rfl, -⟩ := checkedInt_ok h
    exact ⟨rfl, rfl⟩
  | sizedInt kind n =>
    obtain ⟨rfl, -⟩ := checkedInt_ok h
    rw [intKind_eq_narrowest]
    exact ⟨rfl, rfl⟩
  | exprs es =>
    cases h
    rw [readBack, readBackAll_eq, atomKinds, atomKindsAll_eq]
    exact ⟨rfl, rfl⟩
  | none | mapping | record => cases h
  | _ =>
    cases h
    exact ⟨rfl, rfl⟩

theorem ofNatives_reads (hvs : ∀ v ∈ vs, ∀ e, ofNative v = .ok e →
      e.readBack = v.settled ∧ e.atomKinds = v.kinds) (h : ofNatives vs = .ok es) :
    readBackAll es = Native.settledAll vs ∧ atomKindsAll es = Native.kindsAll vs := by
  induction vs generalizing es with
  | nil =>
    cases h
    exact ⟨rfl, rfl⟩
  | cons v vs ih =>
    rw [List.forall_mem_cons] at hvs
    obtain ⟨e, he, h⟩ := bind_ok_iff.1 h
    obtain ⟨es, hes, h⟩ := bind_ok_iff.1 h
    cases h
    obtain ⟨hvalue, hkinds⟩ := hvs.1 e he
    obtain ⟨hvalues, hallKinds⟩ := ih hvs.2 hes
    rw [readBackAll, atomKindsAll, Native.settledAll, Native.kindsAll, hvalue, hkinds, hvalues,
      hallKinds]
    exact ⟨rfl, rfl⟩

/-- What a value becomes is read back as the value, and its atoms have the kinds that the leaves
choose. -/
theorem readBack_ofNative (h : ofNative v = .ok e) :
    e.readBack = v.settled ∧ e.atomKinds = v.kinds := by
  induction v using Native.items_induction generalizing e with
  | leaf v hv => exact ofNative_leaf hv h
  | list items ih | tuple items ih =>
    obtain ⟨es, hes, rfl⟩ := map_ok_iff.1 h
    obtain ⟨hvalues, hkinds⟩ := ofNatives_reads (fun v hv e he => ih v hv he) hes
    rw [readBack, atomKinds, Native.settled, Native.kinds, hvalues, hkinds]
    exact ⟨rfl, rfl⟩

/-! ## Values that have none -/

theorem error?_ofNatives (hvs : ∀ v ∈ vs,
      error? (ofNative v) = v.leaves.findSome? fun l => error? (ofNative l)) :
    error? (ofNatives vs) = (Native.leavesAll vs).findSome? fun l => error? (ofNative l) := by
  induction vs with
  | nil => rfl
  | cons v vs ih =>
    rw [List.forall_mem_cons] at hvs
    rw [Native.leavesAll, List.findSome?_append, ← hvs.1, ← ih hvs.2, ofNatives]
    cases ofNative v with
    | error cause => rfl
    | ok e => cases ofNatives vs <;> rfl

/-- A value fails with the error of the first of its leaves that fails. -/
theorem error?_ofNative (v : Native) :
    error? (ofNative v) = v.leaves.findSome? fun l => error? (ofNative l) := by
  induction v using Native.items_induction with
  | leaf v hv =>
    rw [Native.leaves_of_isLeaf hv]
    cases h : error? (ofNative v) <;> simp [h]
  | list items ih | tuple items ih =>
    rw [ofNative, Native.leaves, ← error?_ofNatives ih]
    cases ofNatives items <;> rfl

theorem plain?_cases {n : Int} (h : l.plain? = some n) : ofNative l = checkedInt .int64 n := by
  unfold Native.plain? at h
  split at h
  · cases h
    rfl
  · cases h
    rfl
  · cases h
    rfl
  · cases h

/-- An integer within its width has the kind of the width, or it is one that becomes plain. -/
theorem contains_intKind {kind : WordKind} {n : Int} (h : kind.min ≤ n ∧ n ≤ kind.max)
    (hplain : (Native.sizedInt kind n).plain? = none) : kind.intKind.contains n = true := by
  rw [IntKind.contains, Bool.and_eq_true, decide_eq_true_eq, decide_eq_true_eq]
  cases kind with
  | longlong | ulonglong => cases hplain
  | _ =>
    simp only [WordKind.min, WordKind.max, WordKind.intKind, WordKind.intKind?, Option.getD_some,
      IntKind.min, IntKind.max] at h ⊢
    omega

theorem ofNative_refused {kind : FailureKind} (h : l.Refused kind) :
    ∃ cause, ofNative l = .error cause ∧ cause.kind = kind := by
  cases h with
  | @integer n hl hn =>
    have hcontains : ¬ IntKind.int64.contains n = true :=
      fun h => hn (IntKind.contains_iff_holds.1 h)
    rw [plain?_cases hl]
    exact ⟨.outOfRange .int64 n, if_neg hcontains, rfl⟩
  | type h =>
    cases h with
    | none | mapping | record => exact ⟨_, rfl, rfl⟩

theorem exists_refused (hl : l.IsLeaf) (hfits : l.Fits) {cause : ConstructError}
    (h : ofNative l = .error cause) : ∃ kind, l.Refused kind := by
  cases hplain : l.plain? with
  | some n =>
    refine ⟨_, .integer hplain fun hn => ?_⟩
    have hcontains : IntKind.int64.contains n = true := IntKind.contains_iff_holds.2 hn
    rw [plain?_cases hplain, checkedInt, if_pos hcontains] at h
    cases h
  | none =>
    cases l with
    | list | tuple => cases hl
    | int n => cases hplain
    | sizedInt kind n =>
      rw [ofNative, checkedInt, if_pos (contains_intKind hfits hplain)] at h
      cases h
    | none => exact ⟨_, .type .none⟩
    | mapping fields => exact ⟨_, .type (.mapping fields)⟩
    | record name fields => exact ⟨_, .type (.record name fields)⟩
    | _ => cases h

/-- A value has an expression and no leaf that is refused, or it fails at the first such leaf. -/
theorem ofNative_outcome (hv : ∀ l ∈ v.leaves, l.Fits) :
    ((∃ e, ofNative v = .ok e) ∧ ∀ l ∈ v.leaves, ∀ kind, ¬ l.Refused kind) ∨
      ∃ before l cause, v.FailsAt before l cause := by
  have hnot : ∀ l, error? (ofNative l) = none → ∀ kind, ¬ l.Refused kind := by
    intro l hl kind hrefused
    obtain ⟨cause, hcause, -⟩ := ofNative_refused hrefused
    rw [hcause] at hl
    cases hl
  have hfirst := error?_ofNative v
  cases hresult : ofNative v with
  | ok e =>
    rw [hresult] at hfirst
    have hall := List.findSome?_eq_none_iff.1 hfirst.symm
    exact .inl ⟨⟨e, rfl⟩, fun l hl => hnot l (hall l hl)⟩
  | error cause =>
    rw [hresult] at hfirst
    obtain ⟨before, l, after, hleaves, hl, hbefore⟩ := List.findSome?_eq_some_iff.1 hfirst.symm
    have hmem : l ∈ v.leaves := by simp [hleaves]
    have hcause := error?_eq_some_iff.1 hl
    obtain ⟨kind, hrefused⟩ :=
      exists_refused (Native.isLeaf_of_mem_leaves hmem) (hv l hmem) hcause
    obtain ⟨cause', hcause', rfl⟩ := ofNative_refused hrefused
    cases hcause.symm.trans hcause'
    exact .inr ⟨before, l, cause, ⟨after, hleaves⟩, fun b hb => hnot b (hbefore b hb), hrefused,
      hcause, hresult⟩

theorem exists_ofNative_iff (hv : ∀ l ∈ v.leaves, l.Fits) :
    (∃ e, ofNative v = .ok e) ↔ ∀ l ∈ v.leaves, ∀ kind, ¬ l.Refused kind := by
  rcases ofNative_outcome hv with ⟨hok, hleaves⟩ | ⟨before, l, cause, hfails⟩
  · exact ⟨fun _ => hleaves, fun _ => hok⟩
  · constructor
    · rintro ⟨e, he⟩
      cases he.symm.trans hfails.error
    · intro hleaves
      obtain ⟨after, hmem⟩ := hfails.leaves
      exact absurd hfails.refused (hleaves l (by simp [hmem]) _)

theorem forall_not_refused_iff : (∀ l ∈ v.leaves, ∀ kind, ¬ l.Refused kind) ↔
    (∀ l ∈ v.leaves, ¬ l.Unsupported) ∧
      ∀ l ∈ v.leaves, ∀ n, l.plain? = some n → -2 ^ 63 ≤ n ∧ n < 2 ^ 63 := by
  constructor
  · intro h
    refine ⟨fun l hl hl' => h l hl _ (.type hl'), fun l hl n hn => ?_⟩
    by_contra hrange
    exact h l hl _ (.integer hn hrange)
  · rintro ⟨htypes, hrange⟩ l hl kind (⟨hn, hout⟩ | ⟨hl'⟩)
    · exact hout (hrange l hl _ hn)
    · exact htypes _ hl hl'

/-- A value whose sized integers lie within their widths has an expression if and only if all of its
leaves are of types that have a kind, and 64 bits are enough for its plain integers and for those of
the two types without a kind of their own. The expression is read back as the value, and its atoms
have the kinds that the types of the leaves choose. Where an integer needs more bits, the first such
integer is an overflow, or a fault of its value if it cannot be shown; where there are leaves of
other types as well, the error is that of the first leaf that has no expression. -/
theorem ofNative_of_leaves (v : Native) (hv : ∀ l ∈ v.leaves, l.Fits) :
    ((∃ e, ofNative v = .ok e) ↔ (∀ l ∈ v.leaves, ¬ l.Unsupported) ∧
      ∀ l ∈ v.leaves, ∀ n, l.plain? = some n → -2 ^ 63 ≤ n ∧ n < 2 ^ 63) ∧
    (∀ e, ofNative v = .ok e → e.readBack = v.settled ∧ e.atomKinds = v.kinds) ∧
    ((∀ l ∈ v.leaves, ¬ l.Unsupported) →
      (¬ ∀ l ∈ v.leaves, ∀ n, l.plain? = some n → -2 ^ 63 ≤ n ∧ n < 2 ^ 63) →
        ∃ before l cause n, v.FailsAt before l cause ∧ l.plain? = some n ∧
          cause.kind = if DigitLimit.standard.admitsInt n then .overflow else .value) ∧
    ((∃ l ∈ v.leaves, l.Unsupported) → ∃ before l cause, v.FailsAt before l cause) := by
  have hok := (exists_ofNative_iff hv).trans forall_not_refused_iff
  refine ⟨hok, fun e he => readBack_ofNative he, ?_, ?_⟩
  · intro htypes hrange
    rcases ofNative_outcome hv with ⟨hexpr, -⟩ | ⟨before, l, cause, hfails⟩
    · exact absurd (hok.1 hexpr).2 hrange
    · obtain ⟨after, hmem⟩ := hfails.leaves
      have hrefused := hfails.refused
      generalize hkind : cause.kind = kind at hrefused
      cases hrefused with
      | integer hn => exact ⟨before, l, cause, _, hfails, hn, hkind⟩
      | type h => exact absurd h (htypes l (by simp [hmem]))
  · rintro ⟨l, hl, hl'⟩
    rcases ofNative_outcome hv with ⟨-, hleaves⟩ | hfails
    · exact absurd (.type hl') (hleaves l hl _)
    · exact hfails

/-- A tuple with a sized integer and a buffer inside a list is read back; in the other value the
integer stands in front of the leaf that has no kind. -/
theorem ofNative_of_leaves_nested :
    let v : Native := .list [.bool true, .tuple [.sizedInt .uint8 200, .buffer [1, 2]], .str "a"]
    let w : Native := .tuple [.int 1, .list [.int (2 ^ 63), .none]]
    (∀ l ∈ v.leaves, l.Fits) ∧ (∀ l ∈ w.leaves, l.Fits) ∧
      (∃ e, ofNative v = .ok e ∧
        e.readBack = .list [.bool true, .list [.int 200, .bytes [1, 2]], .str "a"] ∧
        e.atomKinds = [.bool, .int .uint32, .bytes, .string]) ∧
      ∃ before l cause, w.FailsAt before l cause ∧ cause.kind = .overflow := by
  intro v w
  have hv : ∀ l ∈ v.leaves, l.Fits := by
    simp [v, Native.leaves, Native.leavesAll, Native.Fits, WordKind.min, WordKind.max]
  have hw : ∀ l ∈ w.leaves, l.Fits := by
    simp [w, Native.leaves, Native.leavesAll, Native.Fits]
  refine ⟨hv, hw, ?_, ?_⟩
  · obtain ⟨hok, hreads, -⟩ := ofNative_of_leaves v hv
    have htypes : ∀ l ∈ v.leaves, ¬ l.Unsupported := by
      simp only [v, Native.leaves, Native.leavesAll, List.cons_append, List.nil_append,
        List.forall_mem_cons]
      exact ⟨nofun, nofun, nofun, nofun, nofun⟩
    obtain ⟨e, he⟩ := hok.2 ⟨htypes, by simp [v, Native.leaves, Native.leavesAll, Native.plain?]⟩
    exact ⟨e, he, hreads e he⟩
  · obtain ⟨-, -, -, hfails⟩ := ofNative_of_leaves w hw
    have hmem : .none ∈ w.leaves := by simp [w, Native.leaves, Native.leavesAll]
    obtain ⟨before, l, cause, hat⟩ := hfails ⟨.none, hmem, .none⟩
    have hrun : ofNative w = .error (.outOfRange .int64 (2 ^ 63)) := rfl
    cases hrun.symm.trans hat.error
    exact ⟨before, l, _, hat, rfl⟩

/-- The largest integer of a type that is not listed has no expression although it has 64 bits, and
one with too many digits is no overflow. -/
theorem not_ofNative_of_leaves :
    (¬ ∀ v : Native, (∀ l ∈ v.leaves, l.Fits) → (∀ l ∈ v.leaves, ¬ l.Unsupported) →
      (∀ n, .int n ∈ v.leaves → -2 ^ 63 ≤ n ∧ n < 2 ^ 63) → ∃ e, ofNative v = .ok e) ∧
    ¬ ∀ v : Native, (∀ l ∈ v.leaves, l.Fits) → (∀ l ∈ v.leaves, ¬ l.Unsupported) →
      (¬ ∀ n, .int n ∈ v.leaves → -2 ^ 63 ≤ n ∧ n < 2 ^ 63) →
        ∃ cause, ofNative v = .error cause ∧ cause.kind = .overflow := by
  constructor
  · intro h
    obtain ⟨e, he⟩ := h (.sizedInt .ulonglong (2 ^ 64 - 1))
      (by simp [Native.leaves, Native.Fits, WordKind.min, WordKind.max])
      (by simp only [Native.leaves, List.forall_mem_singleton]; exact nofun)
      (by simp [Native.leaves])
    cases he
  · intro h
    obtain ⟨n, hlong⟩ := DigitLimit.exists_not_admitsInt
    have hcontains : ¬ IntKind.int64.contains n = true := by
      intro hn
      rw [DigitLimit.admitsInt_of_contains hn] at hlong
      cases hlong
    obtain ⟨cause, hcause, hkind⟩ := h (.int n) (by simp [Native.leaves, Native.Fits])
      (by simp only [Native.leaves, List.forall_mem_singleton]; exact nofun)
      fun h => hcontains (IntKind.contains_iff_holds.2 (h n (by simp [Native.leaves])))
    rw [ofNative, checkedInt, if_neg hcontains] at hcause
    cases hcause
    rw [ConstructError.kind, ConstructError.isWritable, hlong] at hkind
    cases hkind

end Expr

end Formulary
