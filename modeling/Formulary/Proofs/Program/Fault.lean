import Formulary.Proofs.Program.Conditional
import Formulary.Proofs.Standard

/-!
# Faults of compilation

Whether the standard environment compiles an expression, and with which kind of failure it fails
otherwise, can be told without compiling it. An expression is at fault by itself, or it has the
fault of the first of its parts that is at fault. So a path leads from every expression that does
not compile to the innermost one that is at fault by itself. The error keeps the kind of that
fault, and its message names the places on the path.
-/
namespace Formulary

/-- Where a part stands that is compiled on its own. -/
inductive Place where
  | argument (index : Nat)
  | clause (name : String)

namespace Place

def wrap : Place → CompileError → CompileError
  | .argument index => .inArgument index
  | .clause name => .inClause name

/-- How the message of an error that comes up at the place reads. -/
def phrase : Place → String → String
  | .argument index, text => s!"error compiling funcall argument {index}: {text}"
  | .clause name, text => s!"error parsing if/else {name} clause: {text}"

/-- The place of the element with that index after the head of a list. -/
def ofIndex (head : Expr) (index : Nat) : Place :=
  if head.isOperator "if" then .clause (["TEST", "THEN", "ELSE"].getD index "") else .argument index

theorem kind_wrap (place : Place) (cause : CompileError) :
    (place.wrap cause).kind = cause.kind := by
  cases place <;> rfl

theorem message_wrap (place : Place) (cause : CompileError) :
    (place.wrap cause).message = place.phrase cause.message := by
  cases place <;> rfl

end Place

/-- The error says where another one has come up. -/
def CompileError.isPlaced : CompileError → Bool
  | .inArgument _ _ | .inClause _ _ => true
  | _ => false

/-- The kind of failure that an outcome is, if it is one. -/
def failureKind? {α : Type} : Except CompileError α → Option FailureKind
  | .ok _ => none
  | .error err => some err.kind

/-- The failure of a conditional form that has not the right number of elements. -/
def Conditional.lengthFailure? (length : Nat) : Option FailureKind :=
  if length = 1 then some .compilation
  else if length = 2 ∨ 4 < length then some .arity
  else none

/-- A form with a test has its parts: its record holds the operator, the test and the rest. -/
theorem Conditional.bind_of_symbol? (source : Source) {head : Expr} {operator : Symbol}
    (test : Expr) (rest : List Expr) (hhead : head.symbol? = some operator) :
    binder.bind (.list source (head :: test :: rest)) (.record parts.name) =
      .ok (record (.symbol operator) test rest) := by
  have hconforms : Conforms [parts] (.list source (head :: test :: rest)) (.record parts.name) := by
    refine .record shape_parts ⟨Nat.le_add_left _ _, fun most hmost => by cases hmost⟩ ?_
    intro slot hslot x hx
    simp only [slots, List.mem_cons, List.not_mem_nil, or_false] at hslot
    obtain rfl | rfl | rfl := hslot
    · cases hx
      obtain ⟨s, rfl⟩ := Expr.eq_atom_of_symbol? hhead
      exact .plain rfl
    · exact .plain rfl
    · cases hx
      exact .sequence fun y hy => .plain rfl
  obtain ⟨n, hn⟩ := Binder.exists_succeeds_of_conforms hconforms
  obtain ⟨v, hv⟩ := hn.of_enoughFuel
  obtain ⟨_, _, _, _, helems, hoperator, rfl⟩ := bind_parts hv
  cases helems
  cases hhead.symm.trans hoperator
  exact hv

namespace Expr

/-- The failure of an expression that is at fault whatever its parts are. -/
def ownFailure? : Expr → Option FailureKind
  | .atom _ (.int _ n) => if 2 ^ 63 - 1 < n then some .compilation else none
  | .atom _ _ => none
  | .list _ [] => some .compilation
  | .list _ (head :: args) =>
    if head.symbol? = none then some .compilation
    else if head.isOperator "+" ∨ head.isOperator "-" then none
    else if head.isOperator "if" then Conditional.lengthFailure? (args.length + 1)
    else some .resolution

mutual

/-- The failure of an expression: its own, or else that of its first part that has one. -/
def failure? : Expr → Option FailureKind
  | .list source (head :: args) =>
    (ownFailure? (.list source (head :: args))).or (firstFailure? args)
  | e => e.ownFailure?

def firstFailure? : List Expr → Option FailureKind
  | [] => none
  | e :: es => (failure? e).or (firstFailure? es)

end

/-- The path leads to an expression that is at fault by itself, and nothing in front of the path
is at fault. -/
inductive FaultAt : Expr → List Place → Expr → Prop where
  | here {e : Expr} {kind : FailureKind} (h : e.ownFailure? = some kind) : FaultAt e [] e
  | inside {source : Source} {head part innermost : Expr} {before after : List Expr}
      {places : List Place}
      (hown : ownFailure? (.list source (head :: (before ++ part :: after))) = none)
      (hbefore : ∀ e ∈ before, e.failure? = none) (h : FaultAt part places innermost) :
      FaultAt (.list source (head :: (before ++ part :: after)))
        (.ofIndex head before.length :: places) innermost

/-- The parts are compiled one after the other, up to the first that fails. -/
inductive RunsThrough {α : Type} (head : Expr) :
    Nat → List Expr → Except CompileError α → Prop where
  | done {index : Nat} (a : α) : RunsThrough head index [] (.ok a)
  | stop {index : Nat} {e : Expr} {es : List Expr} {cause : CompileError}
      (h : e.compile .standard = .error cause) :
      RunsThrough head index (e :: es) (.error ((Place.ofIndex head index).wrap cause))
  | next {index : Nat} {e : Expr} {es : List Expr} {n : Node} {x : Except CompileError α}
      (h : e.compile .standard = .ok n) (hrest : RunsThrough head (index + 1) es x) :
      RunsThrough head index (e :: es) x

namespace RunsThrough

variable {α β : Type} {head : Expr} {index : Nat} {es : List Expr} {x : Except CompileError α}

theorem map (f : α → β) (h : RunsThrough head index es x) :
    RunsThrough head index es (x.map f) := by
  induction h with
  | done a => exact .done (f a)
  | stop h => exact .stop h
  | next h _ ih => exact .next h ih

theorem stop_at {e : Expr} {cause : CompileError} {place : Place}
    (hplace : Place.ofIndex head index = place) (h : e.compile .standard = .error cause) :
    RunsThrough head index (e :: es) (.error (place.wrap cause) : Except CompileError α) := by
  rw [← hplace]
  exact .stop h

theorem arguments (hhead : head.isOperator "if" = false) :
    RunsThrough head index es (compileArgs .standard index es) := by
  induction es generalizing index with
  | nil =>
    rw [compileArgs_nil]
    exact .done []
  | cons e es ih =>
    rw [compileArgs]
    cases he : e.compile .standard with
    | error cause =>
      have hplace : Place.ofIndex head index = .argument index := by
        rw [Place.ofIndex, hhead]
        rfl
      exact stop_at hplace he
    | ok n => exact .next he (ih.map _)

theorem clause {name : String} {e : Expr} {next : Node → Except CompileError α}
    (hplace : Place.ofIndex head index = .clause name)
    (hnext : ∀ n, RunsThrough head (index + 1) es (next n)) :
    RunsThrough head index (e :: es)
      ((e.compile .standard).mapError (.inClause name) >>= next) := by
  cases he : e.compile .standard with
  | error cause => exact stop_at hplace he
  | ok n => exact .next he (hnext n)

end RunsThrough

/-! ## One level of a compilation -/

theorem compile_conditional {source : Source} {head test : Expr} {rest : List Expr}
    {operator : Symbol} (hhead : head.symbol? = some operator) (hif : operator.Denotes "if") :
    (Expr.list source (head :: test :: rest)).compile .standard =
      Conditional.outcome (compile .standard) source test rest := by
  rw [compile_special hhead (Environment.resolve?_conditional hif)]
  exact Conditional.run_expand (Conditional.bind_of_symbol? source test rest hhead)

theorem compile_clauses {source : Source} {head : Expr} {args : List Expr} {operator : Symbol}
    (hhead : head.symbol? = some operator) (hif : operator.Denotes "if")
    (hlength : args.length = 2 ∨ args.length = 3) :
    RunsThrough head 0 args ((Expr.list source (head :: args)).compile .standard) := by
  have hplace (index : Nat) : Place.ofIndex head index =
      .clause (["TEST", "THEN", "ELSE"].getD index "") :=
    if_pos (isOperator_iff.2 ⟨operator, hhead, hif⟩)
  rcases hlength with hlength | hlength
  · obtain ⟨test, consequent, rfl⟩ := List.length_eq_two.1 hlength
    rw [compile_conditional hhead hif, Conditional.outcome]
    exact .clause (hplace 0) fun t => .clause (hplace 1) fun c => .done _
  · obtain ⟨test, consequent, alternative, rfl⟩ := List.length_eq_three.1 hlength
    rw [compile_conditional hhead hif, Conditional.outcome]
    exact .clause (hplace 0) fun t => .clause (hplace 1) fun c =>
      .clause (hplace 2) fun a => .done _

/-- The compilation fails with an error of that kind, which does not come from a part. -/
def FailsItself (e : Expr) (kind : FailureKind) : Prop :=
  ∃ own, e.compile .standard = .error own ∧ own.kind = kind ∧ own.isPlaced = false

/-- A conditional that has not one or two clauses after its test fails before any of them. -/
theorem failsItself_of_length {source : Source} {head : Expr} {args : List Expr}
    {operator : Symbol} {kind : FailureKind} (hhead : head.symbol? = some operator)
    (hif : operator.Denotes "if") (h : Conditional.lengthFailure? (args.length + 1) = some kind) :
    FailsItself (.list source (head :: args)) kind := by
  match args with
  | [] =>
    cases h
    unfold FailsItself
    rw [compile_special hhead (Environment.resolve?_conditional hif)]
    cases hbind : Conditional.binder.bind (.list source [head])
        (.record Conditional.parts.name) with
    | error cause =>
      refine ⟨.badConditional cause, ?_, rfl, rfl⟩
      simp only [Conditional.specialForm, Conditional.expand_of_error hbind]
      rfl
    | ok v =>
      obtain ⟨_, _, _, _, helems, -⟩ := Conditional.bind_parts hbind
      cases helems
  | [test] =>
    cases h
    exact ⟨.noConsequent, compile_conditional hhead hif, rfl, rfl⟩
  | [_, _] => cases h
  | [_, _, _] => cases h
  | _ :: _ :: _ :: _ :: rest =>
    cases h
    exact ⟨.extraClause, compile_conditional hhead hif, rfl, rfl⟩

theorem ownFailure?_of_symbol? {source : Source} {head : Expr} {args : List Expr}
    {operator : Symbol} (hhead : head.symbol? = some operator) :
    ownFailure? (.list source (head :: args)) =
      if operator.Denotes "+" ∨ operator.Denotes "-" then none
      else if operator.Denotes "if" then Conditional.lengthFailure? (args.length + 1)
      else some .resolution := by
  simp only [ownFailure?, hhead, isOperator, Option.any_some, decide_eq_true_iff,
    Option.some_ne_none, if_false]

theorem failsItself_of_ownFailure? {e : Expr} {kind : FailureKind}
    (h : e.ownFailure? = some kind) : FailsItself e kind := by
  match e with
  | .atom source (.int k n) =>
    rw [ownFailure?] at h
    split_ifs at h with hn
    cases h
    have hcontains : ¬ IntKind.int64.contains n = true := by
      rw [IntKind.contains, Bool.and_eq_true, decide_eq_true_iff, decide_eq_true_iff]
      rintro ⟨-, hmax⟩
      exact absurd hn (Int.not_lt.2 hmax)
    refine ⟨.oversize (.atom source (.int k n)) n, ?_, rfl, rfl⟩
    rw [compile_scalar _ source (by simp)]
    exact if_neg hcontains
  | .list source [] =>
    cases h
    exact ⟨.emptyList, compile_nil _ source, rfl, rfl⟩
  | .list source (head :: args) =>
    cases hhead : head.symbol? with
    | none =>
      rw [ownFailure?, if_pos hhead] at h
      cases h
      exact ⟨.headNotSymbol head, by simp [compile, hhead], rfl, rfl⟩
    | some operator =>
      rw [ownFailure?_of_symbol? hhead] at h
      split_ifs at h with harith hif
      · exact failsItself_of_length hhead hif h
      · cases h
        rw [not_or] at harith
        exact ⟨_, compile_unresolved hhead (Environment.resolve?_eq_none harith.1 harith.2 hif),
          rfl, rfl⟩

/-- The other lists compile to what their parts make of them. -/
theorem compile_parts {source : Source} {head : Expr} {args : List Expr}
    (h : ownFailure? (.list source (head :: args)) = none) :
    RunsThrough head 0 args ((Expr.list source (head :: args)).compile .standard) := by
  cases hhead : head.symbol? with
  | none => simp [ownFailure?, hhead] at h
  | some operator =>
    rw [ownFailure?_of_symbol? hhead] at h
    split_ifs at h with harith hif
    · obtain ⟨b, hb, hfunction⟩ := Environment.resolve?_arithmetic harith
      rw [compile_function hhead hb hfunction]
      apply RunsThrough.map
      apply RunsThrough.arguments
      rw [Bool.eq_false_iff]
      intro hif
      rcases harith with hadd | hsub
      · exact absurd (isOperator_inj hif (isOperator_iff.2 ⟨_, hhead, hadd⟩)) (by decide)
      · exact absurd (isOperator_inj hif (isOperator_iff.2 ⟨_, hhead, hsub⟩)) (by decide)
    · apply compile_clauses hhead hif
      rw [Conditional.lengthFailure?] at h
      split_ifs at h with hlength hlength'
      omega

/-- No kind of integers goes below the 64-bit ones. -/
theorem int64_contains {k : IntKind} {n : Int} (hwf : k.contains n = true)
    (hn : ¬ 2 ^ 63 - 1 < n) : IntKind.int64.contains n = true := by
  have hmin : IntKind.int64.min ≤ k.min := by
    cases k <;> decide
  rw [IntKind.contains, Bool.and_eq_true, decide_eq_true_iff, decide_eq_true_iff] at hwf ⊢
  exact ⟨hmin.trans hwf.1, Int.not_lt.1 hn⟩

theorem exists_compile_atom {source : Source} {a : Atom} (hwf : a.WellFormed)
    (h : ownFailure? (.atom source a) = none) :
    ∃ n, (Expr.atom source a).compile .standard = .ok n := by
  obtain ⟨s, rfl, hs⟩ | ⟨-, ha⟩ := compile_atom .standard source a
  · exact ⟨_, hs⟩
  rw [ha]
  cases a with
  | int k n =>
    rw [ownFailure?] at h
    split_ifs at h with hn
    exact ⟨_, if_pos (int64_contains hwf hn)⟩
  | _ => exact ⟨_, rfl⟩

theorem wellFormed_args {source : Source} {head : Expr} {args : List Expr}
    (h : (Expr.list source (head :: args)).WellFormed) : ∀ e ∈ args, e.WellFormed := by
  rw [wellFormed_iff, leaves_list] at h
  intro e he
  exact wellFormed_iff.2 (h e (List.mem_cons_of_mem head he))

/-- The induction over an expression that follows its compilation: an expression is at fault by
itself, or it is an atom that compiles, or a list that compiles to what its parts make of it. -/
@[elab_as_elim]
theorem compile_induction {motive : Expr → Prop}
    (fault : ∀ e kind, e.ownFailure? = some kind → FailsItself e kind → motive e)
    (atom : ∀ source a n, ownFailure? (.atom source a) = none →
      (Expr.atom source a).compile .standard = .ok n → motive (.atom source a))
    (parts : ∀ source head args, ownFailure? (.list source (head :: args)) = none →
      RunsThrough head 0 args ((Expr.list source (head :: args)).compile .standard) →
      (∀ e ∈ args, e.WellFormed ∧ motive e) → motive (.list source (head :: args)))
    {e : Expr} (h : e.WellFormed) : motive e := by
  have hfault {e : Expr} {kind : FailureKind} (hown : e.ownFailure? = some kind) : motive e :=
    fault e kind hown (failsItself_of_ownFailure? hown)
  induction e with
  | atom source a =>
    cases hown : ownFailure? (.atom source a) with
    | some kind => exact hfault hown
    | none =>
      obtain ⟨n, hn⟩ := exists_compile_atom h hown
      exact atom source a n hown hn
  | list source es ih =>
    cases hown : ownFailure? (.list source es) with
    | some kind => exact hfault hown
    | none =>
      cases es with
      | nil => cases hown
      | cons head args =>
        refine parts source head args hown (compile_parts hown) fun e he => ?_
        have hwf := wellFormed_args h e he
        exact ⟨hwf, ih e (List.mem_cons_of_mem head he) hwf⟩

/-! ## Whole expressions -/

theorem RunsThrough.failureKind? {α : Type} {head : Expr} {index : Nat} {es : List Expr}
    {x : Except CompileError α} (h : RunsThrough head index es x)
    (hes : ∀ e ∈ es, Formulary.failureKind? (e.compile .standard) = e.failure?) :
    Formulary.failureKind? x = firstFailure? es := by
  induction h with
  | done a => rfl
  | @stop index e es cause h =>
    have he := hes e List.mem_cons_self
    rw [h] at he
    rw [firstFailure?, ← he]
    exact congrArg some (Place.kind_wrap _ cause)
  | @next index e es n x h _ ih =>
    obtain ⟨he, hes⟩ := List.forall_mem_cons.1 hes
    rw [h] at he
    rw [firstFailure?, ← he, ih hes]
    rfl

theorem RunsThrough.error {α : Type} {head : Expr} {index : Nat} {es : List Expr}
    {err : CompileError} (h : RunsThrough head index es (.error err : Except CompileError α)) :
    ∃ before part after cause, es = before ++ part :: after ∧
      (∀ e ∈ before, ∃ n, e.compile .standard = .ok n) ∧ part.compile .standard = .error cause ∧
      err = (Place.ofIndex head (index + before.length)).wrap cause := by
  generalize hx : (.error err : Except CompileError α) = x at h
  induction h with
  | done a => cases hx
  | @stop index e es cause h =>
    cases hx
    exact ⟨[], e, es, cause, rfl, by simp, h, rfl⟩
  | @next index e es n x h _ ih =>
    obtain ⟨before, part, after, cause, rfl, hbefore, hpart, rfl⟩ := ih hx
    refine ⟨e :: before, part, after, cause, rfl, ?_, hpart, ?_⟩
    · exact List.forall_mem_cons.2 ⟨⟨n, h⟩, hbefore⟩
    · rw [List.length_cons, Nat.add_right_comm, Nat.add_assoc]

theorem failure?_of_own {e : Expr} {kind : FailureKind} (h : e.ownFailure? = some kind) :
    e.failure? = some kind := by
  unfold failure?
  split
  · rw [h, Option.some_or]
  · exact h

theorem failureKind?_compile {e : Expr} (h : e.WellFormed) :
    failureKind? (e.compile .standard) = e.failure? := by
  refine compile_induction ?fault ?atom ?parts h
  case fault =>
    rintro e _ hown ⟨own, herror, rfl, -⟩
    rw [failure?_of_own hown, herror]
    rfl
  case atom =>
    intro source a n hown hn
    rw [hn, failure?, hown]
    · rfl
    · simp
  case parts =>
    intro source head args hown hruns hargs
    rw [hruns.failureKind? fun e he => (hargs e he).2, failure?, hown, Option.none_or]

theorem failure?_eq_none {e : Expr} (h : e.WellFormed) {n : Node}
    (hn : e.compile .standard = .ok n) : e.failure? = none := by
  rw [← failureKind?_compile h, hn]
  rfl

/-- An error of a compilation is that of an expression at the end of a path, wrapped at every
place on it. -/
theorem exists_faultAt {e : Expr} (h : e.WellFormed) :
    ∀ err, e.compile .standard = .error err →
      ∃ places innermost own, FaultAt e places innermost ∧
        innermost.compile .standard = .error own ∧ own.isPlaced = false ∧
        innermost.ownFailure? = some own.kind ∧ err = places.foldr Place.wrap own := by
  refine compile_induction ?fault ?atom ?parts h
  case fault =>
    rintro e _ hown ⟨own, herror, rfl, hplaced⟩ err herr
    cases herror.symm.trans herr
    exact ⟨[], e, own, .here hown, herror, hplaced, hown, rfl⟩
  case atom =>
    rintro source a n - hn err herr
    cases hn.symm.trans herr
  case parts =>
    intro source head args hown hruns hargs err herr
    rw [herr] at hruns
    obtain ⟨before, part, after, cause, rfl, hbefore, hpart, rfl⟩ := hruns.error
    obtain ⟨-, ih⟩ := hargs part (List.mem_append_right before List.mem_cons_self)
    obtain ⟨places, innermost, own, hat, howner, hplaced, hkind, rfl⟩ := ih cause hpart
    refine ⟨Place.ofIndex head before.length :: places, innermost, own, .inside hown ?_ hat,
      howner, hplaced, hkind, ?_⟩
    · intro e he
      obtain ⟨n, hn⟩ := hbefore e he
      exact failure?_eq_none (hargs e (List.mem_append_left _ he)).1 hn
    · rw [Nat.zero_add, List.foldr_cons]

theorem kind_foldr_wrap (places : List Place) (own : CompileError) :
    (places.foldr Place.wrap own).kind = own.kind := by
  induction places with
  | nil => rfl
  | cons place places ih => rw [List.foldr_cons, Place.kind_wrap, ih]

theorem message_foldr_wrap (places : List Place) (own : CompileError) :
    (places.foldr Place.wrap own).message = places.foldr Place.phrase own.message := by
  induction places with
  | nil => rfl
  | cons place places ih => rw [List.foldr_cons, Place.message_wrap, ih, List.foldr_cons]

/-- The failure of an expression is that of its compilation in the standard environment. An error
has the kind of the innermost fault, and its message leads to that fault, place by place. -/
theorem compile_failure (e : Expr) (h : e.WellFormed) :
    failureKind? (e.compile .standard) = e.failure? ∧
      ∀ err, e.compile .standard = .error err →
        ∃ places innermost own, FaultAt e places innermost ∧
          innermost.compile .standard = .error own ∧ own.isPlaced = false ∧
          innermost.ownFailure? = some err.kind ∧ own.kind = err.kind ∧
          err.message = places.foldr Place.phrase own.message := by
  refine ⟨failureKind?_compile h, ?_⟩
  intro err herr
  obtain ⟨places, innermost, own, hat, howner, hplaced, hkind, rfl⟩ := exists_faultAt h err herr
  rw [kind_foldr_wrap, message_foldr_wrap]
  exact ⟨places, innermost, own, hat, howner, hplaced, hkind, rfl, rfl⟩

theorem compile_failure_nested :
    let plus : Expr := .atom none (.symbol ⟨"+", "formula"⟩)
    let minus : Expr := .atom none (.symbol ⟨"-", ""⟩)
    let conditional : Expr := .atom none (.symbol ⟨"if", ""⟩)
    let large : Expr := .atom none (.int .uint64 9223372036854775808)
    let e : Expr := .list none [plus, .list none [conditional, plus, .list none [minus, large]],
      .list none [conditional, large]]
    e.WellFormed ∧ failureKind? (e.compile .standard) = some .compilation ∧
      ∃ err, e.compile .standard = .error err ∧ err.kind = .compilation ∧
        ∃ places innermost own, FaultAt e places innermost ∧
          innermost.compile .standard = .error own ∧ own.isPlaced = false ∧
          innermost.ownFailure? = some err.kind ∧ own.kind = err.kind ∧
          err.message = places.foldr Place.phrase own.message := by
  intro plus minus conditional large e
  have hwf : e.WellFormed := by
    rw [wellFormed_iff]
    simp only [e, plus, minus, conditional, large, leaves_list, List.forall_mem_cons, leaves_atom,
      Atom.WellFormed, List.not_mem_nil, false_implies, implies_true, and_true, true_and]
    decide
  obtain ⟨hkind, hpath⟩ := compile_failure e hwf
  have hfailure : e.failure? = some .compilation := rfl
  rw [hfailure] at hkind
  refine ⟨hwf, hkind, ?_⟩
  cases herr : e.compile .standard with
  | ok n =>
    rw [herr] at hkind
    cases hkind
  | error err =>
    rw [herr] at hkind
    exact ⟨err, rfl, Option.some.inj hkind, hpath err herr⟩

end Expr

end Formulary
