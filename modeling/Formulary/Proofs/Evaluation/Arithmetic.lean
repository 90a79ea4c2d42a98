import Formulary.Evaluation.Arithmetic
import Formulary.Expr.Construct
import Formulary.Proofs.Number.Numeral
import Formulary.Proofs.Number.Order
import Formulary.Proofs.Outcome
import Mathlib.Algebra.BigOperators.Group.List.Basic

/-!
# The law of promotion

Addition and subtraction treat all widths of numbers alike. The leftmost argument that is no
number is reported, and if there is none, integers alone give their exact result. As soon as a
floating-point number takes part the result is a double, for which the integers are summed exactly
and widened once, and the doubles are summed from left to right. So the place of an integer among
the summands makes no difference.
-/
namespace Formulary

namespace Native

/-- The double that equals a floating-point number of any width. -/
def double? : Native → Option Double
  | .double x | .sizedDouble x => some x
  | .half x => some (x.convert .double)
  | .single x => some (x.convert .double)
  | _ => Option.none

def isNumber (v : Native) : Bool := v.integer?.isSome || v.double?.isSome

end Native

namespace Arithmetic

variable {operator : String} {v : Native} {vs args args' : List Native}

def Numbers (args : List Native) : Prop := ∀ v ∈ args, v.isNumber = true

/-- One of the arguments is a floating-point number. -/
def HasDouble (args : List Native) : Prop := ∃ v ∈ args, v.double? ≠ none

def exactSum (args : List Native) : Int := (args.filterMap Native.integer?).sum

/-- The sum of the floating-point numbers from left to right, beginning with zero. -/
def doubleSum (args : List Native) : Double :=
  (args.filterMap Native.double?).foldl Binary.add (.zero .double false)

/-- Nothing gives zero, a single integer its negation, and from the first of several the sum of
the others is taken. -/
def exactDifference : List Int → Int
  | [] => 0
  | [n] => -n
  | n :: ns => n - ns.sum

/-- The double for a number of any width. -/
def widened (v : Native) : Except EvalFault Double := plainDouble (normalize v)

/-- No double is near the integer. -/
def TooLarge (n : Int) : Prop := 2 ^ 1024 - 2 ^ 970 ≤ n.natAbs

/-! ## Widening -/

theorem toDouble_cases (n : Int) :
    (¬ TooLarge n ∧ ∃ x, toDouble n = .ok x) ∨ (TooLarge n ∧ toDouble n = .error .overflow) := by
  have hlarge : TooLarge n ↔ Binary.ofInt? .double n = none :=
    Binary.ofInt?_double_eq_none_iff.symm
  rw [hlarge, toDouble]
  -- from here on nothing depends on how an integer is rounded
  generalize Binary.ofInt? .double n = x?
  cases x? with
  | none => exact .inr ⟨rfl, rfl⟩
  | some x => exact .inl ⟨Option.some_ne_none x, x, rfl⟩

theorem toDouble_eq_overflow_iff {n : Int} : toDouble n = .error .overflow ↔ TooLarge n := by
  rcases toDouble_cases n with ⟨hn, x, hx⟩ | ⟨hn, hx⟩
  · simp [hn, hx]
  · simp [hn, hx]

/-! ## Normal forms -/

/-- A number is an integer or a floating-point number, and not both. -/
theorem number_cases (h : v.isNumber = true) :
    (∃ n, v.integer? = some n ∧ v.double? = none ∧ normalize v = .int n) ∨
      ∃ x, v.integer? = none ∧ v.double? = some x ∧ normalize v = .double x := by
  cases v with
  | int n => exact .inl ⟨n, rfl, rfl, rfl⟩
  | sizedInt kind n => exact .inl ⟨n, rfl, rfl, rfl⟩
  | double x => exact .inr ⟨x, rfl, rfl, rfl⟩
  | sizedDouble x => exact .inr ⟨x, rfl, rfl, rfl⟩
  | half x => exact .inr ⟨_, rfl, rfl, rfl⟩
  | single x => exact .inr ⟨_, rfl, rfl, rfl⟩
  | _ => cases h

theorem isNumber_of_integer? {n : Int} (h : v.integer? = some n) : v.isNumber = true := by
  rw [Native.isNumber, h]
  rfl

theorem isNumber_of_double? {x : Double} (h : v.double? = some x) : v.isNumber = true := by
  rw [Native.isNumber, h, Option.isSome_some, Bool.or_true]

theorem normalize_of_integer? {n : Int} (h : v.integer? = some n) : normalize v = .int n := by
  obtain ⟨m, hm, -, hv⟩ | ⟨x, hm, -⟩ := number_cases (isNumber_of_integer? h)
  · rw [hv, Option.some.inj (hm.symm.trans h)]
  · cases hm.symm.trans h

theorem normalize_of_double? {x : Double} (h : v.double? = some x) : normalize v = .double x := by
  obtain ⟨n, -, hy, -⟩ | ⟨y, -, hy, hv⟩ := number_cases (isNumber_of_double? h)
  · cases hy.symm.trans h
  · rw [hv, Option.some.inj (hy.symm.trans h)]

/-! ## Sums -/

theorem total_integer {n : Int} (h : normalize v = .int n) (t : Total) :
    total operator t (v :: vs) = total operator { t with integers := t.integers + n } vs := by
  rw [total, h]

theorem total_double {x : Double} (h : normalize v = .double x) (t : Total) :
    total operator t (v :: vs) =
      total operator { t with doubles := t.doubles.add x, hasDouble := true } vs := by
  rw [total, h]

theorem total_other (h : v.isNumber = false) (t : Total) :
    total operator t (v :: vs) = .error (.argumentType operator v) := by
  cases v with
  | int | sizedInt | double | sizedDouble | half | single => cases h
  | _ => rfl

/-- The first argument that is no number ends the sum, whatever was summed before. -/
theorem total_of_find? (h : args.find? (fun v => !v.isNumber) = some v) (t : Total) :
    total operator t args = .error (.argumentType operator v) := by
  induction args generalizing t with
  | nil => cases h
  | cons w ws ih =>
    rw [List.find?_cons] at h
    cases hw : w.isNumber with
    | false =>
      rw [hw] at h
      cases h
      exact total_other hw t
    | true =>
      rw [hw] at h
      obtain ⟨n, -, -, hn⟩ | ⟨x, -, -, hx⟩ := number_cases hw
      · rw [total_integer hn, ih h]
      · rw [total_double hx, ih h]

theorem total_of_numbers (h : Numbers args) (t : Total) :
    total operator t args = .ok
      { integers := t.integers + exactSum args
        doubles := (args.filterMap Native.double?).foldl Binary.add t.doubles
        hasDouble := t.hasDouble || args.any (·.double?.isSome) } := by
  induction args generalizing t with
  | nil => simp [total, exactSum]
  | cons v vs ih =>
    obtain ⟨hv, hvs⟩ := List.forall_mem_cons.1 h
    obtain ⟨n, hn, hx, hnormal⟩ | ⟨x, hn, hx, hnormal⟩ := number_cases hv
    · rw [total_integer hnormal, ih hvs]
      simp [exactSum, hn, hx, Int.add_assoc]
    · rw [total_double hnormal, ih hvs]
      simp [exactSum, hn, hx]

theorem any_isSome_iff : args.any (·.double?.isSome) = true ↔ HasDouble args := by
  simp [HasDouble, Option.isSome_iff_ne_none]

theorem hasDouble_cons : HasDouble (v :: vs) ↔ v.double? ≠ none ∨ HasDouble vs := by
  simp [HasDouble]

theorem sum_of_find? (h : args.find? (fun v => !v.isNumber) = some v) :
    sum operator args = .error (.argumentType operator v) := by
  rw [sum, total_of_find? h]
  rfl

theorem sum_of_integers (h : Numbers args) (hx : ¬ HasDouble args) :
    sum operator args = .ok (.int (exactSum args)) := by
  rw [← any_isSome_iff, Bool.not_eq_true] at hx
  rw [sum, total_of_numbers h, hx, ok_bind, zero_add]
  rfl

theorem sum_of_hasDouble (h : Numbers args) (hx : HasDouble args) :
    sum operator args =
      (toDouble (exactSum args)).map fun x => .double (x.add (doubleSum args)) := by
  rw [← any_isSome_iff] at hx
  rw [sum, total_of_numbers h, hx, ok_bind, doubleSum, ← bind_return, zero_add,
    if_pos (Bool.or_true _)]

/-- The operator has a part in errors only. -/
theorem sum_eq_add (h : Numbers args) : sum operator args = add args := by
  by_cases hx : HasDouble args
  · rw [add, sum_of_hasDouble h hx, sum_of_hasDouble h hx]
  · rw [add, sum_of_integers h hx, sum_of_integers h hx]

theorem add_perm (h : Numbers args) (hperm : args.Perm args')
    (hdoubles : args.filterMap Native.double? = args'.filterMap Native.double?) :
    add args = add args' := by
  have h' : Numbers args' := fun v hv => h v (hperm.mem_iff.2 hv)
  have hexact : exactSum args = exactSum args' := (hperm.filterMap _).sum_eq
  have hdouble : HasDouble args ↔ HasDouble args' := by
    simp only [HasDouble, hperm.mem_iff]
  by_cases hx : HasDouble args
  · rw [add, add, sum_of_hasDouble h hx, sum_of_hasDouble h' (hdouble.1 hx), hexact, doubleSum,
      doubleSum, hdoubles]
  · rw [add, add, sum_of_integers h hx, sum_of_integers h' (mt hdouble.2 hx), hexact]

/-! ## Differences -/

theorem sub_other (h : v.isNumber = false) : sub (v :: vs) = .error (.argumentType "-" v) := by
  cases v with
  | int | sizedInt | double | sizedDouble | half | single => cases h
  | _ => rfl

theorem sub_singleton_integer {n : Int} (h : normalize v = .int n) :
    sub [v] = .ok (.int (-n)) := by
  simp only [sub, h]

theorem sub_singleton_double {x : Double} (h : normalize v = .double x) :
    sub [v] = .ok (.double x.neg) := by
  simp only [sub, h]

theorem sub_of_ne_nil (h : v.isNumber = true) (hvs : vs ≠ []) :
    sub (v :: vs) = sum "-" vs >>= difference (normalize v) := by
  cases vs with
  | nil => exact absurd rfl hvs
  | cons w ws =>
    obtain ⟨n, -, -, hn⟩ | ⟨x, -, -, hx⟩ := number_cases h
    · simp only [sub, hn]
    · simp only [sub, hx]

theorem difference_of_double {a b : Native}
    (h : (∃ x, a = .double x) ∨ ∃ y, b = .double y) :
    difference a b = do
      let x ← plainDouble a
      let y ← plainDouble b
      return .double (x.sub y) := by
  obtain ⟨x, rfl⟩ | ⟨y, rfl⟩ := h
  · rfl
  · cases a <;> rfl

theorem widened_of_integer? {n : Int} (h : v.integer? = some n) : widened v = toDouble n := by
  rw [widened, normalize_of_integer? h, plainDouble]

theorem widened_of_double? {x : Double} (h : v.double? = some x) : widened v = .ok x := by
  rw [widened, normalize_of_double? h, plainDouble]

/-- The sum of some numbers is a plain integer or a double, or an integer was too large. -/
theorem add_cases (h : Numbers args) :
    (¬ HasDouble args ∧ add args = .ok (.int (exactSum args))) ∨
      (HasDouble args ∧ ¬ TooLarge (exactSum args) ∧ ∃ x, add args = .ok (.double x)) ∨
      (HasDouble args ∧ TooLarge (exactSum args) ∧ add args = .error .overflow) := by
  by_cases hx : HasDouble args
  · right
    rw [add, sum_of_hasDouble h hx]
    obtain ⟨hsmall, x, hn⟩ | ⟨hlarge, hn⟩ := toDouble_cases (exactSum args)
    · rw [hn]
      exact .inl ⟨hx, hsmall, _, rfl⟩
    · rw [hn]
      exact .inr ⟨hx, hlarge, rfl⟩
  · exact .inl ⟨hx, sum_of_integers h hx⟩

theorem widened_cases (h : v.isNumber = true) :
    ((∀ n, v.integer? = some n → ¬ TooLarge n) ∧ ∃ x, widened v = .ok x) ∨
      ((∃ n, v.integer? = some n ∧ TooLarge n) ∧ widened v = .error .overflow) := by
  obtain ⟨n, hn, -⟩ | ⟨x, hn, hx, -⟩ := number_cases h
  · rw [widened_of_integer? hn, hn]
    obtain ⟨hsmall, hx⟩ | ⟨hlarge, hx⟩ := toDouble_cases n
    · exact .inl ⟨fun m hm => Option.some.inj hm ▸ hsmall, hx⟩
    · exact .inr ⟨⟨n, rfl, hlarge⟩, hx⟩
  · refine .inl ⟨fun n hn' => ?_, x, widened_of_double? hx⟩
    cases hn.symm.trans hn'

theorem sub_of_integers (h : Numbers args) (hx : ¬ HasDouble args) :
    sub args = .ok (.int (exactDifference (args.filterMap Native.integer?))) := by
  -- a number that is no floating-point number is an integer
  have hinteger : ∀ v ∈ args, ∃ n, v.integer? = some n ∧ normalize v = .int n := by
    intro v hv
    obtain ⟨n, hn, -, hnormal⟩ | ⟨x, -, hx', -⟩ := number_cases (h v hv)
    · exact ⟨n, hn, hnormal⟩
    · exact absurd ⟨v, hv, by simp [hx']⟩ hx
  cases args with
  | nil => rfl
  | cons v vs =>
    obtain ⟨⟨n, hn, hnormal⟩, hvs⟩ := List.forall_mem_cons.1 hinteger
    cases vs with
    | nil =>
      rw [sub_singleton_integer hnormal, List.filterMap_cons_some hn]
      rfl
    | cons w ws =>
      obtain ⟨⟨m, hm, -⟩, -⟩ := List.forall_mem_cons.1 hvs
      obtain ⟨hv, hrest⟩ := List.forall_mem_cons.1 h
      have hnone : ¬ HasDouble (w :: ws) := fun hw => hx (hasDouble_cons.2 (.inr hw))
      rw [sub_of_ne_nil hv (by simp), sum_of_integers hrest hnone, ok_bind, hnormal, exactSum,
        List.filterMap_cons_some hn, List.filterMap_cons_some hm]
      rfl

theorem located_of_ok {f : List Native → Except EvalFault Native} (h : f args = .ok v)
    (l : Location) : located f l args = .ok v := by
  rw [located, h]
  rfl

theorem integers_map_int (ns : List Int) :
    Numbers (ns.map .int) ∧ ¬ HasDouble (ns.map .int) ∧
      (ns.map Native.int).filterMap Native.integer? = ns := by
  refine ⟨?_, ?_, ?_⟩
  · intro v hv
    obtain ⟨n, -, rfl⟩ := List.mem_map.1 hv
    rfl
  · rintro ⟨v, hv, hx⟩
    obtain ⟨n, -, rfl⟩ := List.mem_map.1 hv
    exact hx rfl
  · rw [List.filterMap_map]
    exact List.filterMap_some

theorem add_integers (ns : List Int) : add (ns.map .int) = .ok (.int ns.sum) := by
  obtain ⟨h, hx, hintegers⟩ := integers_map_int ns
  rw [add, sum_of_integers h hx, exactSum, hintegers]

theorem sub_integers (ns : List Int) : sub (ns.map .int) = .ok (.int (exactDifference ns)) := by
  obtain ⟨h, hx, hintegers⟩ := integers_map_int ns
  rw [sub_of_integers h hx, hintegers]

theorem sub_of_hasDouble (hvs : vs ≠ []) (h : Numbers (v :: vs)) (hx : HasDouble (v :: vs)) :
    sub (v :: vs) = do
      let rest ← add vs
      let x ← widened v
      let y ← widened rest
      return .double (x.sub y) := by
  obtain ⟨hv, hrest⟩ := List.forall_mem_cons.1 h
  rw [sub_of_ne_nil hv hvs, sum_eq_add hrest]
  obtain ⟨hnone, hadd⟩ | ⟨-, -, y, hadd⟩ | ⟨-, -, hadd⟩ := add_cases hrest
  · rw [hadd, ok_bind, ok_bind]
    obtain ⟨x, hx'⟩ := Option.ne_none_iff_exists'.1 ((hasDouble_cons.1 hx).resolve_right hnone)
    exact difference_of_double (.inl ⟨x, normalize_of_double? hx'⟩)
  · rw [hadd, ok_bind, ok_bind]
    exact difference_of_double (.inr ⟨y, rfl⟩)
  · rw [hadd]
    rfl

theorem widened_add_cases (h : Numbers args) :
    (¬ TooLarge (exactSum args) ∧ ∃ v x, add args = .ok v ∧ widened v = .ok x) ∨
      (TooLarge (exactSum args) ∧
        (add args = .error .overflow ∨ ∃ v, add args = .ok v ∧ widened v = .error .overflow)) := by
  obtain ⟨-, hadd⟩ | ⟨-, hsmall, x, hadd⟩ | ⟨-, hlarge, hadd⟩ := add_cases h
  · obtain ⟨hsmall, x, hx⟩ | ⟨hlarge, hx⟩ := toDouble_cases (exactSum args)
    · exact .inl ⟨hsmall, _, x, hadd, hx⟩
    · exact .inr ⟨hlarge, .inr ⟨_, hadd, hx⟩⟩
  · exact .inl ⟨hsmall, _, x, hadd, rfl⟩
  · exact .inr ⟨hlarge, .inl hadd⟩

/-- The first argument is widened if it is an integer, and the exact sum of the others always,
whether a double is among them or not. -/
theorem sub_cases (hvs : vs ≠ []) (h : Numbers (v :: vs)) (hx : HasDouble (v :: vs)) :
    ((∀ n, v.integer? = some n → ¬ TooLarge n) ∧ ¬ TooLarge (exactSum vs) ∧
        ∃ x, sub (v :: vs) = .ok (.double x)) ∨
      (((∃ n, v.integer? = some n ∧ TooLarge n) ∨ TooLarge (exactSum vs)) ∧
        sub (v :: vs) = .error .overflow) := by
  obtain ⟨hv, hrest⟩ := List.forall_mem_cons.1 h
  rw [sub_of_hasDouble hvs h hx]
  obtain ⟨hsmall, w, y, hadd, hy⟩ | ⟨hlarge, hadd | ⟨w, hadd, hy⟩⟩ := widened_add_cases hrest
  · rw [hadd, ok_bind, hy]
    obtain ⟨hfirst, x, hx'⟩ | ⟨hfirst, hx'⟩ := widened_cases hv
    · rw [hx', ok_bind, ok_bind]
      exact .inl ⟨hfirst, hsmall, _, rfl⟩
    · rw [hx', error_bind]
      exact .inr ⟨.inl hfirst, rfl⟩
  · rw [hadd, error_bind]
    exact .inr ⟨.inr hlarge, rfl⟩
  · rw [hadd, ok_bind, hy]
    right
    obtain ⟨-, x, hx'⟩ | ⟨-, hx'⟩ := widened_cases hv
    · rw [hx', ok_bind, error_bind]
      exact ⟨.inr hlarge, rfl⟩
    · rw [hx', error_bind]
      exact ⟨.inr hlarge, rfl⟩

theorem sub_overflow_iff (hvs : vs ≠ []) (h : Numbers (v :: vs)) (hx : HasDouble (v :: vs)) :
    sub (v :: vs) = .error .overflow ↔
      (∃ n, v.integer? = some n ∧ TooLarge n) ∨ TooLarge (exactSum vs) := by
  obtain ⟨hfirst, hsmall, x, hsub⟩ | ⟨hlarge, hsub⟩ := sub_cases hvs h hx
  · rw [hsub]
    refine iff_of_false (fun hok => by cases hok) ?_
    rintro (⟨n, hn, hlarge⟩ | hlarge)
    · exact hfirst n hn hlarge
    · exact hsmall hlarge
  · exact iff_of_true hsub hlarge

/-! ## The law -/

/-- What addition and subtraction have in common: the leftmost argument that is no number is a
type error, if it can be written, and a fault of its value if not; integers alone give an exact
integer, and nothing else does. -/
structure Promotes (operator : String) (f : List Native → Except EvalFault Native)
    (exact : List Int → Int) (args : List Native) : Prop where
  typeError_iff :
    (∃ fault, f args = .error fault ∧ fault.kind = .argumentType) ↔
      ∃ v, args.find? (fun v => !v.isNumber) = some v ∧ v.within .standard = true
  fault_iff :
    (∃ fault, f args = .error fault ∧ fault.kind ≠ .overflow) ↔ ∃ v ∈ args, v.isNumber = false
  leftmost (v : Native) (h : args.find? (fun v => !v.isNumber) = some v) :
    ∃ fault, f args = .error fault ∧
      (v.within .standard = true → fault.kind = .argumentType ∧
        fault.message = s!"invalid type for argument to {operator}: {v.display}") ∧
      (v.within .standard = false → fault.kind = .value)
  int_iff (h : Numbers args) : (∃ n, f args = .ok (.int n)) ↔ ¬ HasDouble args
  exact_int (h : Numbers args) (hx : ¬ HasDouble args) :
    f args = .ok (.int (exact (args.filterMap Native.integer?)))

theorem numbers_iff_find? : Numbers args ↔ args.find? (fun v => !v.isNumber) = none := by
  simp [Numbers]

theorem kind_argumentType_ne_overflow (operator : String) (v : Native) :
    (EvalFault.argumentType operator v).kind ≠ .overflow := by
  rw [EvalFault.kind]
  split_ifs <;> exact nofun

/-- A function of arguments takes all numbers, or it stops at the first that is none. -/
theorem promotes_of {f : List Native → Except EvalFault Native} {exact : List Int → Int}
    (hfault : ∀ v, args.find? (fun v => !v.isNumber) = some v →
      f args = .error (.argumentType operator v))
    (hexact : Numbers args → ¬ HasDouble args →
      f args = .ok (.int (exact (args.filterMap Native.integer?))))
    (hdouble : Numbers args → HasDouble args →
      (∃ x, f args = .ok (.double x)) ∨ f args = .error .overflow) :
    Promotes operator f exact args := by
  have herror : ∀ fault, f args = .error fault → fault.kind ≠ .overflow →
      ∃ v, args.find? (fun v => !v.isNumber) = some v ∧ fault = .argumentType operator v := by
    intro fault hf hkind
    cases hfind : args.find? (fun v => !v.isNumber) with
    | some v =>
      cases (hfault v hfind).symm.trans hf
      exact ⟨v, rfl, rfl⟩
    | none =>
      have h : Numbers args := numbers_iff_find?.2 hfind
      by_cases hx : HasDouble args
      · obtain ⟨x, hok⟩ | hover := hdouble h hx
        · cases hok.symm.trans hf
        · cases hover.symm.trans hf
          exact absurd rfl hkind
      · cases (hexact h hx).symm.trans hf
  refine ⟨⟨?_, ?_⟩, ⟨?_, ?_⟩, fun v h => ?_, fun h => ?_, hexact⟩
  · rintro ⟨fault, hf, htype⟩
    obtain ⟨v, hv, rfl⟩ := herror fault hf (by simp [htype])
    refine ⟨v, hv, ?_⟩
    by_contra hlong
    rw [EvalFault.kind, if_neg hlong] at htype
    cases htype
  · rintro ⟨v, hv, hwithin⟩
    exact ⟨_, hfault v hv, if_pos hwithin⟩
  · rintro ⟨fault, hf, hover⟩
    obtain ⟨v, hv, -⟩ := herror fault hf hover
    exact ⟨v, List.mem_of_find?_eq_some hv, by simpa using List.find?_some hv⟩
  · rintro ⟨v, hv, hnumber⟩
    obtain ⟨w, hw⟩ := Option.ne_none_iff_exists'.1 fun hfind =>
      absurd (numbers_iff_find?.2 hfind v hv) (by simp [hnumber])
    exact ⟨_, hfault w hw, kind_argumentType_ne_overflow operator w⟩
  · refine ⟨_, hfault v h, fun hwithin => ⟨if_pos hwithin, rfl⟩, fun hlong => ?_⟩
    rw [EvalFault.kind, hlong]
    rfl
  · constructor
    · rintro ⟨n, hn⟩ hx
      obtain ⟨x, hok⟩ | hover := hdouble h hx
      · cases hok.symm.trans hn
      · cases hover.symm.trans hn
    · exact fun hx => ⟨_, hexact h hx⟩

theorem add_double_or_overflow (h : Numbers args) (hx : HasDouble args) :
    (∃ x, add args = .ok (.double x)) ∨ add args = .error .overflow := by
  obtain ⟨hnone, -⟩ | ⟨-, -, hok⟩ | ⟨-, -, hover⟩ := add_cases h
  · exact absurd hx hnone
  · exact .inl hok
  · exact .inr hover

theorem promotes_add (args : List Native) : Promotes "+" add List.sum args :=
  promotes_of (fun _ h => sum_of_find? h) sum_of_integers add_double_or_overflow

theorem sub_of_find? (h : args.find? (fun v => !v.isNumber) = some v) :
    sub args = .error (.argumentType "-" v) := by
  cases args with
  | nil => cases h
  | cons w ws =>
    rw [List.find?_cons] at h
    cases hw : w.isNumber with
    | false =>
      rw [hw] at h
      cases h
      exact sub_other hw
    | true =>
      rw [hw] at h
      have hws : ws ≠ [] := by
        rintro rfl
        cases h
      rw [sub_of_ne_nil hw hws, sum_of_find? h, error_bind]

theorem sub_double_or_overflow (h : Numbers args) (hx : HasDouble args) :
    (∃ x, sub args = .ok (.double x)) ∨ sub args = .error .overflow := by
  obtain ⟨v, vs, rfl⟩ : ∃ v vs, args = v :: vs := by
    obtain ⟨v, hv, -⟩ := hx
    exact List.exists_cons_of_ne_nil (List.ne_nil_of_mem hv)
  obtain ⟨hv, hrest⟩ := List.forall_mem_cons.1 h
  by_cases hvs : vs = []
  · subst hvs
    have hx' : v.double? ≠ none := (hasDouble_cons.1 hx).resolve_right (by simp [HasDouble])
    obtain ⟨x, hx'⟩ := Option.ne_none_iff_exists'.1 hx'
    exact .inl ⟨_, sub_singleton_double (normalize_of_double? hx')⟩
  · exact (sub_cases hvs h hx).imp (·.2.2) (·.2)

theorem promotes_sub (args : List Native) : Promotes "-" sub exactDifference args :=
  promotes_of (fun _ h => sub_of_find? h) sub_of_integers sub_double_or_overflow

/-- Addition and subtraction take numbers of every width and nothing else, are exact on integers,
and give a double as soon as a floating-point number takes part. The integers among the summands
are summed exactly and widened once, so that only the order of the floating-point numbers counts;
an overflow is an integer that is too large to be widened. -/
theorem promotion (args : List Native) :
    Promotes "+" add List.sum args ∧ Promotes "-" sub exactDifference args ∧
      (Numbers args → HasDouble args →
        add args = (toDouble (exactSum args)).map (fun x => .double (x.add (doubleSum args))) ∧
          (add args = .error .overflow ↔ TooLarge (exactSum args))) ∧
      (∀ v x, args = [v] → v.double? = some x → sub args = .ok (.double x.neg)) ∧
      (∀ first rest, args = first :: rest → rest ≠ [] → Numbers args → HasDouble args →
        sub args = (do
          let sum ← add rest
          let x ← widened first
          let y ← widened sum
          return .double (x.sub y)) ∧
        (sub args = .error .overflow ↔
          (∃ n, first.integer? = some n ∧ TooLarge n) ∨ TooLarge (exactSum rest))) ∧
      (∀ n, toDouble n = .error .overflow ↔ TooLarge n) ∧
      ∀ args', Numbers args → args.Perm args' →
        args.filterMap Native.double? = args'.filterMap Native.double? → add args = add args' := by
  refine ⟨promotes_add args, promotes_sub args, ?_, ?_, ?_, fun n => toDouble_eq_overflow_iff, ?_⟩
  · intro h hx
    refine ⟨sum_of_hasDouble h hx, ?_⟩
    obtain ⟨hnone, -⟩ | ⟨-, hsmall, x, hadd⟩ | ⟨-, hlarge, hadd⟩ := add_cases h
    · exact absurd hx hnone
    · exact iff_of_false (fun hover => by cases hadd.symm.trans hover) hsmall
    · exact iff_of_true hadd hlarge
  · rintro v x rfl hx
    exact sub_singleton_double (normalize_of_double? hx)
  · rintro first rest rfl hrest h hx
    exact ⟨sub_of_hasDouble hrest h hx, sub_overflow_iff hrest h hx⟩
  · intro args' h hperm hdoubles
    exact add_perm h hperm hdoubles

theorem promotion_mixed :
    let args : List Native := [.int 1, .sizedDouble (.infinity false), .sizedInt .uint8 2]
    Numbers args ∧ HasDouble args ∧
      add args = (toDouble 3).map (fun x => .double (x.add (doubleSum args))) ∧
      add args = add [.sizedDouble (.infinity false), .sizedInt .uint8 2, .int 1] ∧
      (sub args = .error .overflow ↔ (∃ n, (Native.int 1).integer? = some n ∧ TooLarge n) ∨
        TooLarge (exactSum [.sizedDouble (.infinity false), .sizedInt .uint8 2])) ∧
      ∃ fault, sub [.int 1, .sizedBool true, .none] = .error fault ∧ fault.kind = .argumentType ∧
        fault.message = "invalid type for argument to -: np.True_" := by
  intro args
  obtain ⟨-, -, hadd, -, hseveral, -, hperm⟩ := promotion args
  obtain ⟨-, hsub, -⟩ := promotion [.int 1, .sizedBool true, .none]
  have h : Numbers args := by
    simp [args, Numbers, Native.isNumber, Native.integer?, Native.double?]
  have hx : HasDouble args := by
    simp [args, HasDouble, Native.double?]
  have hsum : exactSum args = 3 := rfl
  have htotal := (hadd h hx).1
  rw [hsum] at htotal
  refine ⟨h, hx, htotal, ?_, (hseveral _ _ rfl (List.cons_ne_nil _ _) h hx).2, ?_⟩
  · apply hperm _ h
    · exact (List.perm_append_singleton _ _).symm
    · rfl
  · obtain ⟨fault, hfault, htype, -⟩ := hsub.leftmost (.sizedBool true) rfl
    exact ⟨fault, hfault, htype rfl⟩

/-- A list with an integer that has too many digits is no number, and the error cannot show it. -/
theorem not_promotion :
    ¬ ∀ args : List Native, (∃ fault, add args = .error fault ∧ fault.kind = .argumentType) ↔
      ∃ v ∈ args, v.isNumber = false := by
  intro h
  obtain ⟨n, hlong⟩ := DigitLimit.exists_not_admitsInt
  let v : Native := .list [.int n]
  obtain ⟨fault, hfault, hkind⟩ := (h [v]).2 ⟨v, List.mem_singleton_self v, rfl⟩
  have hadd : add [v] = .error (.argumentType "+" v) := sum_of_find? rfl
  cases hadd.symm.trans hfault
  have hwithin : v.within .standard = false := by
    simp only [v, Native.within, Native.withinAll, hlong, Bool.false_and]
  rw [EvalFault.kind, hwithin] at hkind
  cases hkind

end Arithmetic

end Formulary
