import Formulary.Program.Compile
import Formulary.Proofs.Destination.Conformance
import Formulary.Proofs.Program.Meaning
import Formulary.Session

/-!
# What the standard environment compiles

A compilation that succeeds gives a call of a function or the node of a special form. In the
standard environment the only special form is the conditional. It binds to a record of its
operator, its test and the clauses that follow, and the elements that it compiles are those parts
of the record, each one once and in its place.
-/
namespace Formulary

/-! ## One level of a compilation -/

namespace Expr

variable {env : Environment}

theorem compileArgs_ok_iff {index : Nat} {es : List Expr} {ns : List Node} :
    compileArgs env index es = .ok ns ↔
      List.Forall₂ (fun e n => e.compile env = .ok n) es ns := by
  induction es generalizing index ns with
  | nil => simp [eq_comm]
  | cons e es ih =>
    rw [compileArgs, List.forall₂_cons_left_iff]
    cases he : e.compile env with
    | error cause => simp
    | ok n =>
      simp only [Except.ok.injEq, ← @ih (index + 1)]
      cases compileArgs env (index + 1) es with
      | error cause => simp [Except.map]
      | ok rest => simp [Except.map, eq_comm]

theorem compile_unresolved {source : Source} {head : Expr}
    {args : List Expr} {operator : Symbol} (hhead : head.symbol? = some operator)
    (hresolve : env.resolve? operator .both = none) :
    (Expr.list source (head :: args)).compile env =
      .error (.unresolved operator (.list source (head :: args))) := by
  simp only [compile, hhead, hresolve]

theorem compile_special {source : Source} {head : Expr} {args : List Expr}
    {operator symbol : Symbol} {form : SpecialForm} (hhead : head.symbol? = some operator)
    (hresolve : env.resolve? operator .both = some ⟨symbol, .special form⟩) :
    (Expr.list source (head :: args)).compile env = form.expand source (head :: args) >>= fun x =>
      x.run fun e _ => e.compile env := by
  simp only [compile, hhead, hresolve]
  cases form.expand source (head :: args) <;> rfl

/-- A list compiles by what its operator means: to a call of a function with all its arguments, or
to what a special form makes of its elements. -/
theorem compile_list_ok {source : Source} {es : List Expr} {n : Node}
    (h : (Expr.list source es).compile env = .ok n) :
    ∃ head args operator b, es = head :: args ∧ head.symbol? = some operator ∧
      env.resolve? operator .both = some b ∧
      ((b.meaning.function? ≠ none ∧ ∃ ns,
          List.Forall₂ (fun e n => e.compile env = .ok n) args ns ∧
          n = .call source (.reference head.source operator) ns) ∨
        ∃ form, b.meaning = .special form ∧
          (form.expand source es >>= fun x => x.run fun e _ => e.compile env) = .ok n) := by
  cases es with
  | nil => simp at h
  | cons head args =>
    cases hhead : head.symbol? with
    | none => simp [compile, hhead] at h
    | some operator =>
      cases hb : env.resolve? operator .both with
      | none =>
        rw [compile_unresolved hhead hb] at h
        cases h
      | some b =>
        refine ⟨head, args, operator, b, rfl, hhead, hb, ?_⟩
        by_cases hfunction : b.meaning.function? = none
        · obtain ⟨symbol, meaning⟩ := b
          cases meaning with
          | special form =>
            rw [compile_special hhead hb] at h
            exact .inr ⟨form, rfl, h⟩
          | _ => cases hfunction
        · rw [compile_function hhead hb hfunction] at h
          obtain ⟨ns, hns, rfl⟩ := map_ok_iff.1 h
          exact .inl ⟨hfunction, ns, compileArgs_ok_iff.1 hns, rfl⟩

end Expr

/-! ## The node of a conditional -/

theorem Expansion.run_clause {size : Nat}
    (compiled : (e : Expr) → e.size < size → Except CompileError Node) (name : String) (e : Expr)
    (smaller : e.size < size) (next : Node → Expansion size) :
    (Expansion.clause name e smaller next).run compiled =
      (compiled e smaller).mapError (.inClause name) >>= fun n => (next n).run compiled := by
  rw [run]
  cases compiled e smaller <;> rfl

namespace Conditional

variable {source : Source} {elems : List Expr} {compile : Expr → Except CompileError Node}

/-- What becomes of a conditional, given the programs of its test and its clauses. -/
def outcome (compile : Expr → Except CompileError Node) (source : Source) (test : Expr) :
    List Expr → Except CompileError Node
  | [] => .error .noConsequent
  | [consequent] => do
    let t ← (compile test).mapError (.inClause "TEST")
    let c ← (compile consequent).mapError (.inClause "THEN")
    return .ifThen source t c
  | [consequent, alternative] => do
    let t ← (compile test).mapError (.inClause "TEST")
    let c ← (compile consequent).mapError (.inClause "THEN")
    let a ← (compile alternative).mapError (.inClause "ELSE")
    return .ifThenElse source t c a
  | _ => .error .extraClause

/-! ### The record of a form -/

def slots : List Slot :=
  [⟨"op", .plain .symbol, 0, false⟩, ⟨"test", .plain .expr, 1, false⟩,
    ⟨"rest", .sequence .list (.plain .expr), 2, true⟩]

theorem shape_parts : Family.shape [parts] parts.name = .ok ⟨parts.name, slots⟩ := by
  have hrest := RecordDecl.slot_rest parts.name 2
    (f := { name := "rest", type := .sequence .list (.plain .expr), tag := "&rest" }) rfl
  have hslots : RecordDecl.slots parts.name 0 false (parts.fields.filter (·.isBound)) =
      .ok slots :=
    RecordDecl.slots_cons rfl (RecordDecl.slots_cons rfl (RecordDecl.slots_cons hrest rfl))
  exact Family.shape_of_slots rfl rfl hslots

theorem bindWithin_symbol {fuel : Nat} {x : Expr} {v : Native}
    (h : binder.bindWithin fuel x (.plain .symbol) = .ok v) :
    ∃ s, x.symbol? = some s ∧ v = .symbol s := by
  have hfree : binder.registry.get? (.plain .symbol) = none :=
    get?_eq_none (by simp [Destination.same])
      (by simp [Destination.optional_expr, Destination.same])
  cases fuel with
  | zero => cases h
  | succ fuel =>
    cases Binder.bindWithin_succ_ok_iff.1 h with
    | custom hc => cases hfree.symm.trans hc
    | value _ h =>
      cases x with
      | list source es => cases h
      | atom source a =>
        cases a with
        | symbol s =>
          cases h
          exact ⟨s, rfl, rfl⟩
        | _ => cases h
    | target _ ht => cases ht
    | elements _ hseq => cases hseq

theorem bind_parts {source : Source} {elems : List Expr} {v : Native}
    (h : binder.bind (.list source elems) (.record parts.name) = .ok v) :
    ∃ head operator test rest, elems = head :: test :: rest ∧ head.symbol? = some operator ∧
      v = record (.symbol operator) test rest := by
  rw [Binder.bind] at h
  cases hfuel : binder.enoughFuel (.list source elems) (.record parts.name) with
  | zero => rw [hfuel] at h; cases h
  | succ fuel =>
    rw [hfuel] at h
    cases Binder.bindWithin_succ_ok_iff.1 h with
    | custom hc => cases get?_parts.symm.trans hc
    | value _ h => cases h
    | target _ ht => cases ht
    | elements _ hseq => cases hseq
    | record _ hshape hfits hfilled =>
      cases shape_parts.symm.trans hshape
      have hlength : 2 ≤ elems.length := hfits.1
      obtain ⟨head, test, rest, rfl⟩ : ∃ head test rest, elems = head :: test :: rest := by
        rcases elems with - | ⟨head, - | ⟨test, rest⟩⟩
        · exact absurd hlength (by simp)
        · exact absurd hlength (by simp)
        · exact ⟨head, test, rest, rfl⟩
      simp only [slots, List.forall₂_cons_left_iff, List.forall₂_nil_left_iff] at hfilled
      obtain ⟨⟨_, op⟩, _, ⟨rfl, x, hx, hop⟩, ⟨⟨_, t⟩, _, ⟨rfl, y, hy, ht⟩,
        ⟨⟨_, r⟩, _, ⟨rfl, z, hz, hr⟩, rfl, rfl⟩, rfl⟩, rfl⟩ := hfilled
      cases hx
      cases hy
      cases hz
      obtain ⟨operator, hoperator, rfl⟩ := bindWithin_symbol hop
      obtain rfl := bindWithin_expr ht
      obtain ⟨_, hrest, rfl⟩ := bindWithin_exprs hr
      cases hrest
      exact ⟨head, operator, test, rest, rfl, hoperator, rfl⟩

/-! ### What the clauses become -/

theorem Clauses.run_expand {size : Nat} (c : Clauses size) (source : Source)
    (compile : Expr → Except CompileError Node) :
    (c.expand source >>= fun x => x.run fun e _ => compile e) =
      outcome compile source c.test c.rest := by
  match c with
  | ⟨_, [], _, _⟩ | ⟨_, _ :: _ :: _ :: _, _, _⟩ => rfl
  | ⟨_, [_], _, _⟩ | ⟨_, [_, _], _, _⟩ =>
    simp only [expand, ok_bind, Expansion.run_clause]
    rfl

theorem Clauses.ofBound_eq {v : Native} {test : Expr} {rest : List Expr}
    (h : binder.bind (.list source elems) (.record parts.name) = .ok v)
    (hread : read? v = some (test, rest)) :
    (ofBound h).test = test ∧ (ofBound h).rest = rest := by
  unfold ofBound
  split
  next hread' =>
    cases hread.symm.trans hread'
    exact ⟨rfl, rfl⟩
  next hread' => cases hread.symm.trans hread'

theorem expand_of_error {cause : BindError}
    (h : binder.bind (.list source elems) (.record parts.name) = .error cause) :
    expand source elems = .error (.badConditional cause) := by
  unfold expand
  split
  next hbind =>
    cases h.symm.trans hbind
    rfl
  next hbind => cases h.symm.trans hbind

/-- A form is expanded to the test and the clauses of its record. -/
theorem exists_expand {operator : Symbol} {test : Expr} {rest : List Expr}
    (h : binder.bind (.list source elems) (.record parts.name) =
      .ok (record (.symbol operator) test rest)) :
    ∃ c : Clauses (Expr.list source elems).size, c.test = test ∧ c.rest = rest ∧
      expand source elems = c.expand source := by
  unfold expand
  split
  next hbind => cases h.symm.trans hbind
  next v hbind =>
    cases h.symm.trans hbind
    obtain ⟨htest, hrest⟩ := Clauses.ofBound_eq hbind (read?_record (.symbol operator) test rest)
    exact ⟨_, htest, hrest, rfl⟩

theorem run_expand {operator : Symbol} {test : Expr} {rest : List Expr}
    (h : binder.bind (.list source elems) (.record parts.name) =
      .ok (record (.symbol operator) test rest)) :
    (expand source elems >>= fun x => x.run fun e _ => compile e) =
      outcome compile source test rest := by
  obtain ⟨c, rfl, rfl, hc⟩ := exists_expand h
  rw [hc, Clauses.run_expand]

/-- A conditional compiles only if its form has the right parts, and then to what becomes of
them. -/
theorem run_expand_ok {n : Node}
    (h : (expand source elems >>= fun x => x.run fun e _ => compile e) = .ok n) :
    ∃ head operator test rest, elems = head :: test :: rest ∧
      binder.bind (.list source elems) (.record parts.name) =
        .ok (record (.symbol operator) test rest) ∧
      outcome compile source test rest = .ok n := by
  cases hbind : binder.bind (.list source elems) (.record parts.name) with
  | error cause =>
    rw [expand_of_error hbind] at h
    cases h
  | ok v =>
    obtain ⟨head, operator, test, rest, rfl, -, rfl⟩ := bind_parts hbind
    rw [run_expand hbind] at h
    exact ⟨head, operator, test, rest, rfl, rfl, h⟩

/-- The node of a conditional has the programs of its clauses, each in its place. -/
theorem outcome_ok {test : Expr} {rest : List Expr} {n : Node}
    (h : outcome compile source test rest = .ok n) :
    (∃ consequent t c, rest = [consequent] ∧ compile test = .ok t ∧ compile consequent = .ok c ∧
        n = .ifThen source t c) ∨
      ∃ consequent alternative t c a, rest = [consequent, alternative] ∧ compile test = .ok t ∧
        compile consequent = .ok c ∧ compile alternative = .ok a ∧
        n = .ifThenElse source t c a := by
  match rest with
  | [] | _ :: _ :: _ :: _ => cases h
  | [consequent] =>
    simp only [outcome, bind_ok_iff, mapError_ok_iff] at h
    obtain ⟨t, ht, c, hc, h⟩ := h
    cases h
    exact .inl ⟨consequent, t, c, rfl, ht, hc, rfl⟩
  | [consequent, alternative] =>
    simp only [outcome, bind_ok_iff, mapError_ok_iff] at h
    obtain ⟨t, ht, c, hc, a, ha, h⟩ := h
    cases h
    exact .inr ⟨consequent, alternative, t, c, a, rfl, ht, hc, ha, rfl⟩

end Conditional

/-! ## The standard environment -/

/-- The expression is a symbol that names the conditional form, with or without namespace. -/
def Expr.isConditionalOperator (e : Expr) : Bool :=
  e.symbol?.any fun s => s.normalize == ⟨"if", Symbol.formulaSpace⟩

namespace Environment

/-- The only special form of the standard environment is the conditional. -/
theorem resolve?_standard {s : Symbol} {b : Binding} (h : standard.resolve? s .both = some b) :
    (s.normalize = ⟨"if", Symbol.formulaSpace⟩ ∧
        b.meaning = .special Conditional.specialForm) ∨
      (s.normalize ≠ ⟨"if", Symbol.formulaSpace⟩ ∧ b.meaning.function? ≠ none) := by
  rw [resolve?_both, newest?, bindings_standard] at h
  have hsymbol := List.find?_some h
  have hmem := List.mem_of_find?_eq_some h
  rw [beq_iff_eq] at hsymbol
  rw [← hsymbol]
  simp only [List.mem_cons, List.not_mem_nil, or_false] at hmem
  obtain rfl | rfl | rfl := hmem
  · exact .inl ⟨rfl, rfl⟩
  · exact .inr ⟨by decide, Option.some_ne_none _⟩
  · exact .inr ⟨by decide, Option.some_ne_none _⟩

end Environment

namespace Expr

/-- What a list compiles to in the standard environment. The test and the clauses of a conditional
are the parts of the record that its form binds to. -/
inductive CompiledList (source : Source) : List Expr → Node → Prop where
  | call {head : Expr} {operator : Symbol} {args : List Expr} {ns : List Node}
      (hhead : head.symbol? = some operator) (hif : head.isConditionalOperator = false)
      (hargs : List.Forall₂ (fun e n => e.compile .standard = .ok n) args ns) :
      CompiledList source (head :: args) (.call source (.reference head.source operator) ns)
  | ifThen {head test consequent : Expr} {operator : Symbol} {t c : Node}
      (hif : head.isConditionalOperator = true)
      (hbind : Conditional.binder.bind (.list source [head, test, consequent])
        (.record Conditional.parts.name) =
          .ok (Conditional.record (.symbol operator) test [consequent]))
      (ht : test.compile .standard = .ok t) (hc : consequent.compile .standard = .ok c) :
      CompiledList source [head, test, consequent] (.ifThen source t c)
  | ifThenElse {head test consequent alternative : Expr} {operator : Symbol} {t c a : Node}
      (hif : head.isConditionalOperator = true)
      (hbind : Conditional.binder.bind (.list source [head, test, consequent, alternative])
        (.record Conditional.parts.name) =
          .ok (Conditional.record (.symbol operator) test [consequent, alternative]))
      (ht : test.compile .standard = .ok t) (hc : consequent.compile .standard = .ok c)
      (ha : alternative.compile .standard = .ok a) :
      CompiledList source [head, test, consequent, alternative] (.ifThenElse source t c a)

theorem isConditionalOperator_iff {head : Expr} {operator : Symbol}
    (h : head.symbol? = some operator) :
    head.isConditionalOperator = true ↔ operator.normalize = ⟨"if", Symbol.formulaSpace⟩ := by
  rw [isConditionalOperator, h, Option.any_some, beq_iff_eq]

theorem compiledList_of_compile {source : Source} {es : List Expr} {n : Node}
    (h : (Expr.list source es).compile .standard = .ok n) : CompiledList source es n := by
  obtain ⟨head, args, operator, b, rfl, hhead, hb, ⟨hfunction, ns, hns, rfl⟩ |
    ⟨form, hform, hrun⟩⟩ := compile_list_ok h
  · refine .call hhead ?_ hns
    rw [Bool.eq_false_iff, Ne, isConditionalOperator_iff hhead]
    rcases Environment.resolve?_standard hb with ⟨-, hspecial⟩ | ⟨hne, -⟩
    · rw [hspecial] at hfunction
      exact absurd rfl hfunction
    · exact hne
  · rcases Environment.resolve?_standard hb with ⟨hif, hspecial⟩ | ⟨-, hfunction⟩
    · rw [← isConditionalOperator_iff hhead] at hif
      cases hspecial.symm.trans hform
      obtain ⟨_, operator, test, rest, helems, hbind, houtcome⟩ := Conditional.run_expand_ok hrun
      cases helems
      obtain ⟨_, t, c, rfl, ht, hc, rfl⟩ | ⟨_, _, t, c, a, rfl, ht, hc, ha, rfl⟩ :=
        Conditional.outcome_ok houtcome
      · exact .ifThen hif hbind ht hc
      · exact .ifThenElse hif hbind ht hc ha
    · rw [hform] at hfunction
      exact absurd rfl hfunction

end Expr

end Formulary
