import Formulary.Proofs.Evaluation.Arithmetic
import Formulary.Proofs.Expr.Placement
import Formulary.Proofs.Program.Source
import Formulary.Proofs.Standard

/-!
# The first fault of an evaluation

In the standard environment the operator of a list is looked up first, then the arguments are
evaluated from left to right, and then the function looks at their values. The first expression
that fails by itself in this order ends the evaluation with its fault, and the error is placed at
the nearest source context on the way from that expression up to the whole. In a text that is its
own position.
-/
namespace Formulary

open Arithmetic (Numbers HasDouble)

namespace Expr

/-- The names of the functions of the standard environment. -/
def functionNames : List String := ["+", "-"]

/-- The source context of the expression, if it says anything. -/
def context? (e : Expr) : Option Message := e.source.filter Message.isPresent

/-- The source context of the expression, if it is a text that is not empty. -/
def textContext? (e : Expr) : Option String :=
  match e.source with
  | some (.str s) => if s = "" then none else some s
  | _ => none

/-- The expression fails by itself, all its arguments having values if they are looked at. -/
inductive OwnFault : Expr → EvalFault → Prop where
  | symbol (source : Source) (s : Symbol) :
      OwnFault (.atom source (.symbol s)) (.unsupported (.atom source (.symbol s)))
  | empty (source : Source) : OwnFault (.list source []) .emptyList
  | head {source : Source} {head : Expr} {args : List Expr} (h : head.symbol? = none) :
      OwnFault (.list source (head :: args)) (.headNotSymbol head)
  | operator {source : Source} {head : Expr} {args : List Expr} {s : Symbol}
      (h : head.symbol? = some s) (hs : ∀ name ∈ functionNames, ¬ s.Denotes name) :
      OwnFault (.list source (head :: args)) (.unresolved s)
  | argument {source : Source} {head : Expr} {args : List Expr} {name : String}
      {values : List Native} {v : Native} (hname : name ∈ functionNames)
      (h : head.isOperator name = true)
      (hargs : List.Forall₂ (fun e v => e.eval .standard = .ok v) args values)
      (hv : values.find? (fun v => !v.isNumber) = some v) :
      OwnFault (.list source (head :: args)) (.argumentType name v)

/-- The first expression to fail is `x`; it stands inside the expressions `around`, the innermost
of them first. The operators of those mean functions, and the arguments before the one that leads
to `x` have values. -/
inductive FailsAt : Expr → Expr → List Expr → EvalFault → Prop where
  | here {e : Expr} {fault : EvalFault} (h : OwnFault e fault) : FailsAt e e [] fault
  | inside {source : Source} {head arg x : Expr} {before after around : List Expr}
      {fault : EvalFault} {name : String} (hname : name ∈ functionNames)
      (hhead : head.isOperator name = true)
      (hbefore : ∀ e ∈ before, ∃ v, e.eval .standard = .ok v) (h : FailsAt arg x around fault) :
      FailsAt (.list source (head :: (before ++ arg :: after))) x
        (around ++ [.list source (head :: (before ++ arg :: after))]) fault

end Expr

/-! ## Locations -/

namespace Location

/-- The location at the nearest of the expressions that has a source context. -/
def nearest (l : Location) (path : List Expr) : Location :=
  (path.findSome? Expr.context?).elim l Location.mk

theorem enter_eq_nearest (l : Location) (e : Expr) : l.enter e.source = l.nearest [e] := by
  rw [nearest, List.findSome?_singleton, Expr.context?]
  cases e.source with
  | none => rfl
  | some m =>
    rw [enter, Option.filter_some]
    split <;> rfl

theorem nearest_nearest (l : Location) (path path' : List Expr) :
    (l.nearest path').nearest path = l.nearest (path ++ path') := by
  rw [nearest, nearest, nearest, List.findSome?_append]
  cases path.findSome? Expr.context? <;> rfl

end Location

/-! ## One level of an evaluation -/

namespace Arithmetic

/-- A function that takes numbers only fails on the first argument that is none. -/
theorem located_error_iff {operator : String} {f : List Native → Except EvalFault Native}
    {exact : List Int → Int}
    (hfault : ∀ args v, args.find? (fun v => !v.isNumber) = some v →
      f args = .error (.argumentType operator v))
    (hexact : ∀ args, Numbers args → ¬ HasDouble args →
      f args = .ok (.int (exact (args.filterMap Native.integer?))))
    (hdouble : ∀ args, Numbers args → HasDouble args →
      (∃ x, f args = .ok (.double x)) ∨ f args = .error .overflow)
    {l : Location} {args : List Native} {err : EvalError} (hkind : err.kind ≠ .overflow) :
    located f l args = .error err ↔
      ∃ v, args.find? (fun v => !v.isNumber) = some v ∧ err = ⟨l, .argumentType operator v⟩ := by
  rw [located, mapError_error_iff]
  cases hfind : args.find? (fun v => !v.isNumber) with
  | some v => simp [hfault args v hfind, eq_comm]
  | none =>
    have h : Numbers args := by
      intro v hv
      simpa using List.find?_eq_none.1 hfind v hv
    have hno : ¬ ∃ fault, f args = .error fault ∧ ⟨l, fault⟩ = err := by
      rintro ⟨fault, hf, rfl⟩
      by_cases hx : HasDouble args
      · obtain ⟨x, hok⟩ | hover := hdouble args h hx
        · cases hok.symm.trans hf
        · cases hover.symm.trans hf
          exact hkind rfl
      · cases (hexact args h hx).symm.trans hf
    simpa using hno

end Arithmetic

namespace Environment

variable {s : Symbol} {name : String}

theorem function?_other (h : ∀ name ∈ Expr.functionNames, ¬ s.Denotes name) :
    standard.function? s = none :=
  function?_eq_none (h "+" (by decide)) (h "-" (by decide))

/-- The functions of the standard environment take numbers only. -/
theorem function?_standard (hname : name ∈ Expr.functionNames) (h : s.Denotes name) :
    ∃ f, standard.function? s = some f ∧ ∀ l args err, err.kind ≠ .overflow →
      (f.run l args = .error err ↔ ∃ v, args.find? (fun v => !v.isNumber) = some v ∧
        err = ⟨l, .argumentType name v⟩) := by
  simp only [Expr.functionNames, List.mem_cons, List.not_mem_nil, or_false] at hname
  obtain rfl | rfl := hname
  · refine ⟨_, function?_add h, fun l args err hkind => ?_⟩
    exact Arithmetic.located_error_iff (fun _ _ => Arithmetic.sum_of_find?)
      (fun _ => Arithmetic.sum_of_integers) (fun _ => Arithmetic.add_double_or_overflow) hkind
  · refine ⟨_, function?_sub h, fun l args err hkind => ?_⟩
    exact Arithmetic.located_error_iff (fun _ _ => Arithmetic.sub_of_find?)
      (fun _ => Arithmetic.sub_of_integers) (fun _ => Arithmetic.sub_double_or_overflow) hkind

end Environment

namespace Expr

variable {e x : Expr} {es around : List Expr} {l : Location} {err : EvalError} {v : Native}

/-- Values do not depend on where an expression stands. -/
theorem evalAt_ok_iff (l : Location) :
    e.evalAt .standard l = .ok v ↔ e.eval .standard = .ok v := by
  have hagree := evalAt_bare Environment.standard_ignoresLocations (Eq.refl e.bare) l {}
  rw [eval]
  generalize e.evalAt .standard l = r at hagree
  generalize e.evalAt .standard {} = r' at hagree
  cases hagree with
  | ok h => rw [h]
  | error => simp

theorem evalArgs_ok_iff {values : List Native} : evalArgs .standard l es = .ok values ↔
    List.Forall₂ (fun e v => e.eval .standard = .ok v) es values := by
  induction es generalizing values with
  | nil => simp [evalArgs, eq_comm]
  | cons e es ih =>
    simp only [evalArgs, bind_ok_iff, evalAt_ok_iff, ih, List.forall₂_cons_left_iff]
    constructor
    · rintro ⟨v, hv, vs, hvs, heq⟩
      cases heq
      exact ⟨v, vs, hv, hvs, rfl⟩
    · rintro ⟨v, vs, hv, hvs, rfl⟩
      exact ⟨v, hv, vs, hvs, rfl⟩

theorem evalArgs_error_iff : evalArgs .standard l es = .error err ↔
    ∃ before arg after, es = before ++ arg :: after ∧
      (∀ e ∈ before, ∃ v, e.eval .standard = .ok v) ∧ arg.evalAt .standard l = .error err := by
  induction es with
  | nil => simp [evalArgs]
  | cons e es ih =>
    rw [evalArgs, bind_error_iff]
    constructor
    · rintro (he | ⟨v, hv, h⟩)
      · exact ⟨[], e, es, rfl, by simp, he⟩
      · obtain h | ⟨vs, -, h⟩ := bind_error_iff.1 h
        · obtain ⟨before, arg, after, rfl, hbefore, harg⟩ := ih.1 h
          refine ⟨e :: before, arg, after, rfl, ?_, harg⟩
          exact List.forall_mem_cons.2 ⟨⟨v, (evalAt_ok_iff l).1 hv⟩, hbefore⟩
        · cases h
    · rintro ⟨before, arg, after, hes, hbefore, harg⟩
      cases before with
      | nil =>
        cases hes
        exact .inl harg
      | cons e' before =>
        cases hes
        obtain ⟨⟨v, hv⟩, hbefore⟩ := List.forall_mem_cons.1 hbefore
        have hrest := ih.2 ⟨before, arg, after, rfl, hbefore, harg⟩
        exact .inr ⟨v, (evalAt_ok_iff l).2 hv, by rw [hrest, error_bind]⟩

/-! ## The first fault -/

theorem evalAt_of_ownFault {fault : EvalFault} (h : OwnFault e fault) (l : Location) :
    e.evalAt .standard l = .error ⟨l.nearest [e], fault⟩ := by
  rw [← l.enter_eq_nearest]
  cases h with
  | symbol source s => rfl
  | empty source => rfl
  | head h => simp only [evalAt, h, source]
  | operator h hs => simp only [evalAt, h, Environment.function?_other hs, source]
  | @argument source head args name values v hname h hargs hv =>
    obtain ⟨s, hs, hdenotes⟩ := isOperator_iff.1 h
    obtain ⟨f, hf, hrun⟩ := Environment.function?_standard hname hdenotes
    rw [evalAt_function hs hf, evalArgs_ok_iff.2 hargs, ok_bind]
    exact (hrun _ _ ⟨_, _⟩ (Arithmetic.kind_argumentType_ne_overflow name v)).2 ⟨v, hv, rfl⟩

theorem evalAt_of_failsAt {fault : EvalFault} (h : FailsAt e x around fault) (l : Location) :
    e.evalAt .standard l = .error ⟨l.nearest (x :: around), fault⟩ := by
  induction h generalizing l with
  | here h => exact evalAt_of_ownFault h l
  | @inside source head arg x before after around fault name hname hhead hbefore _ ih =>
    obtain ⟨s, hs, hdenotes⟩ := isOperator_iff.1 hhead
    obtain ⟨f, hf, -⟩ := Environment.function?_standard hname hdenotes
    have hargs := evalArgs_error_iff.2 ⟨before, arg, after, rfl, hbefore, ih (l.enter source)⟩
    have hplace := l.enter_eq_nearest (.list source (head :: (before ++ arg :: after)))
    rw [evalAt_function hs hf, hargs, error_bind, ← List.cons_append, ← l.nearest_nearest, ← hplace]
    rfl

theorem failsAt_of_evalAt (h : e.evalAt .standard l = .error err) (hkind : err.kind ≠ .overflow) :
    ∃ x around, FailsAt e x around err.fault := by
  induction e generalizing l with
  | atom source a =>
    cases a with
    | symbol s =>
      cases h
      exact ⟨_, _, .here (.symbol source s)⟩
    | _ => cases h
  | list source es ih =>
    cases es with
    | nil =>
      cases h
      exact ⟨_, _, .here (.empty source)⟩
    | cons head args =>
      cases hs : head.symbol? with
      | none =>
        simp only [evalAt, hs] at h
        cases h
        exact ⟨_, _, .here (.head hs)⟩
      | some s =>
        by_cases hfunction : ∃ name ∈ functionNames, s.Denotes name
        · obtain ⟨name, hname, hdenotes⟩ := hfunction
          have hhead : head.isOperator name = true := isOperator_iff.2 ⟨s, hs, hdenotes⟩
          obtain ⟨f, hf, hrun⟩ := Environment.function?_standard hname hdenotes
          rw [evalAt_function hs hf, bind_error_iff] at h
          obtain h | ⟨values, hvalues, h⟩ := h
          · obtain ⟨before, arg, after, rfl, hbefore, harg⟩ := evalArgs_error_iff.1 h
            obtain ⟨x, around, hfails⟩ := ih arg (by simp) harg
            exact ⟨x, _, .inside hname hhead hbefore hfails⟩
          · obtain ⟨v, hv, rfl⟩ := (hrun _ _ _ hkind).1 h
            exact ⟨_, _, .here (.argument hname hhead (evalArgs_ok_iff.1 hvalues) hv)⟩
        · have hother : ∀ name ∈ functionNames, ¬ s.Denotes name :=
            fun name hname hdenotes => hfunction ⟨name, hname, hdenotes⟩
          simp only [evalAt, hs, Environment.function?_other hother] at h
          cases h
          exact ⟨_, _, .here (.operator hs hother)⟩

/-- The failures of an evaluation other than overflows are the first faults, each at the nearest
source context. -/
theorem evalAt_error_iff (hkind : err.kind ≠ .overflow) : e.evalAt .standard l = .error err ↔
    ∃ x around, FailsAt e x around err.fault ∧ err.location = l.nearest (x :: around) := by
  constructor
  · intro h
    obtain ⟨x, around, hfails⟩ := failsAt_of_evalAt h hkind
    have hplace := evalAt_of_failsAt hfails l
    rw [h, Except.error.injEq] at hplace
    exact ⟨x, around, hfails, congrArg EvalError.location hplace⟩
  · rintro ⟨x, around, hfails, hplace⟩
    rw [evalAt_of_failsAt hfails l, ← hplace]

theorem FailsAt.own {fault : EvalFault} (h : FailsAt e x around fault) : OwnFault x fault := by
  induction h with
  | here h => exact h
  | inside _ _ _ _ ih => exact ih

/-! ## The place of the first fault -/

/-- A message behind the source context that says where it belongs, if there is one. -/
def placed (context? : Option String) (message : String) : String :=
  context?.elim message fun context => context ++ ": " ++ message

theorem message_of_location {path : List Expr} (h : err.location = Location.nearest {} path) :
    err.message = placed ((path.findSome? context?).map Message.text) err.fault.message := by
  rw [EvalError.message, h, Location.nearest]
  cases hfind : path.findSome? context? with
  | none => rfl
  | some m =>
    obtain ⟨y, -, hy⟩ := List.exists_of_findSome?_eq_some hfind
    have hpresent : m.isPresent = true := (Option.filter_eq_some_iff.1 hy).2
    exact if_pos hpresent

theorem FailsAt.sources {P : Source → Prop} {fault : EvalFault} (h : FailsAt e x around fault)
    (he : e.Sources P) : ∀ y ∈ x :: around, P y.source := by
  induction h with
  | @here e fault h =>
    rw [List.forall_mem_singleton]
    cases e with
    | atom source a => exact sources_atom.1 he
    | list source es => exact (sources_list.1 he).1
  | @inside source head arg x before after around fault name _ _ _ _ ih =>
    obtain ⟨hsource, helems⟩ := sources_list.1 he
    rw [← List.cons_append, List.forall_mem_append, List.forall_mem_singleton]
    exact ⟨ih (helems arg (by simp)), hsource⟩

theorem context?_of_textual (h : Source.Textual e.source) :
    e.context?.map Message.text = e.textContext? := by
  obtain hnone | ⟨s, hs⟩ := Source.textual_cases h
  · simp only [context?, textContext?, hnone]
    rfl
  · by_cases hempty : s = ""
    · simp [context?, textContext?, hs, hempty, Message.isPresent]
    · simp [context?, textContext?, hs, hempty, Message.isPresent, Message.text]

theorem findSome?_of_textual {path : List Expr} (h : ∀ e ∈ path, Source.Textual e.source) :
    (path.findSome? context?).map Message.text = path.findSome? textContext? := by
  rw [List.map_findSome?]
  induction path with
  | nil => rfl
  | cons e path ih =>
    obtain ⟨he, hpath⟩ := List.forall_mem_cons.1 h
    rw [List.findSome?_cons, List.findSome?_cons, ih hpath, Function.comp, context?_of_textual he]

theorem FailsAt.exists_standsAt {file : String} {source : List Char} {t : Token}
    {fault : EvalFault} (h : FailsAt e x around fault) (he : StandsAt file source t e) :
    ∃ t', StandsAt file source t' x := by
  induction h generalizing t with
  | here h => exact ⟨t, he⟩
  | @inside source head arg x before after around fault name _ _ _ _ ih =>
    have harg : arg ∈ head :: (before ++ arg :: after) := by simp
    obtain ⟨t', ht'⟩ := he.exists_elem harg
    exact ih ht'

theorem context?_of_standsAt {file : String} {source : List Char} {t : Token}
    (h : StandsAt file source t e) :
    e.context? = some (.str (Position.behind file (source.take t.offset)).text) := by
  rw [context?, h.source_eq, Option.filter_some, if_pos]
  simpa [Message.isPresent] using Position.text_ne_empty _

/-- An evaluation that fails does so at the first expression to fail, and the message begins with
the source context of the nearest expression around it that has one, the expression itself coming
first. Where source contexts are texts, it is the nearest that is not empty, and in a text that is
parsed it is the position of the expression itself. -/
theorem eval_error_placed (e : Expr) (err : EvalError) (h : e.eval .standard = .error err)
    (hkind : err.kind ∈ [FailureKind.evaluation, .resolution, .argumentType]) :
    ∃ x around, FailsAt e x around err.fault ∧
      (∃ l, x.eval .standard = .error ⟨l, err.fault⟩) ∧
      err.message =
        placed (((x :: around).findSome? context?).map Message.text) err.fault.message ∧
      (e.Sources Source.Textual →
        err.message = placed ((x :: around).findSome? textContext?) err.fault.message) ∧
      ∀ file source, ParsedFrom file source e → ∃ t, StandsAt file source t x ∧
        err.message =
          placed (some (Position.behind file (source.take t.offset)).text) err.fault.message := by
  have hover : err.kind ≠ .overflow := by
    intro hover
    simp [hover] at hkind
  obtain ⟨x, around, hfails, hplace⟩ := (evalAt_error_iff hover).1 h
  have hmessage := message_of_location hplace
  refine ⟨x, around, hfails, ⟨_, evalAt_of_ownFault hfails.own {}⟩, hmessage, ?_, ?_⟩
  · intro htextual
    rw [hmessage, findSome?_of_textual (hfails.sources htextual)]
  · intro file source hparsed
    obtain ⟨t, ht⟩ := hparsed.exists_standsAt
    obtain ⟨t', ht'⟩ := hfails.exists_standsAt ht
    refine ⟨t', ht', ?_⟩
    rw [hmessage, List.findSome?_cons, context?_of_standsAt ht']
    rfl

/-- In the first expression the list whose operator is a number comes before the empty one. Neither
it nor the list around it has a source context that says anything, and so the error is placed at
the whole. The second expression is parsed, and its error is placed at the list on the second
line. -/
theorem eval_error_placed_nested :
    let empty : Expr := .list (some (.str "a.f:3:1")) []
    let inner : Expr := .list (some (.str "")) [.atom none (.int .int64 7)]
    let e : Expr := .list (some (.str "a.f:1:1")) [.atom none (.symbol ⟨"+", ""⟩),
      .atom none (.int .int64 1), .list none [.atom none (.symbol ⟨"-", "formula"⟩), inner], empty]
    let source := "(+ 1\n (f) ())".toList
    (∃ err, e.eval .standard = .error err ∧
      err.message = "a.f:1:1: first argument in an s-expression must be a symbol, got 7" ∧
      ∃ x around, FailsAt e x around err.fault ∧
        err.message =
          placed (((x :: around).findSome? context?).map Message.text) err.fault.message) ∧
    ∃ e err, parse "a.f" source = .ok e ∧ e.eval .standard = .error err ∧
      err.message = "a.f:2:2: failed to resolve function f" ∧
      ∃ x t, StandsAt "a.f" source t x ∧ err.message =
        placed (some (Position.behind "a.f" (source.take t.offset)).text) err.fault.message := by
  intro empty inner e source
  constructor
  · refine ⟨⟨⟨.str "a.f:1:1"⟩, .headNotSymbol (.atom none (.int .int64 7))⟩, rfl, ?_, ?_⟩
    · decide +kernel
    · obtain ⟨x, around, hfails, -, hmessage, -⟩ := eval_error_placed e _ rfl (by decide)
      exact ⟨x, around, hfails, hmessage⟩
  · have hruns : ((parse "a.f" source).map fun e => ((e.eval .standard).map fun _ => ()).mapError
        fun err => (err.kind, err.message)) =
          .ok (.error (.resolution, "a.f:2:2: failed to resolve function f")) := by decide +kernel
    obtain ⟨e, hparse, heval⟩ := map_ok_iff.1 hruns
    obtain ⟨err, herr, hpair⟩ := mapError_error_iff.1 heval
    rw [map_error_iff] at herr
    obtain ⟨hkind, hmessage⟩ := Prod.mk.inj hpair
    obtain ⟨x, -, -, -, -, -, hparsed⟩ := eval_error_placed e err herr (by simp [hkind])
    obtain ⟨t, ht, hplaced⟩ := hparsed "a.f" source (.inl hparse)
    exact ⟨e, err, hparse, herr, hmessage, x, t, ht, hplaced⟩

/-- A message may give a source context that is no text, and it is named all the same. -/
theorem not_eval_error_placed_text :
    ¬ ∀ (e : Expr) (err : EvalError), e.eval .standard = .error err →
      err.kind ∈ [FailureKind.evaluation, .resolution, .argumentType] →
      ∃ x around, FailsAt e x around err.fault ∧
        err.message = placed ((x :: around).findSome? textContext?) err.fault.message := by
  intro h
  obtain ⟨x, around, hfails, hmessage⟩ :=
    h (.list (some (.int 5)) []) ⟨⟨.int 5⟩, .emptyList⟩ rfl (by decide)
  cases hfails
  revert hmessage
  decide +kernel

end Expr

end Formulary
