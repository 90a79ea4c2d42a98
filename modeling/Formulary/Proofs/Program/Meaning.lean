import Formulary.Evaluation.Eval
import Formulary.Program.Compile
import Formulary.Proofs.Expr.Basic
import Formulary.Session

/-!
# The meaning of compiled programs

A program has a value of its own: a constant denotes the value of its expression, and a call
applies the function that the environment has for its operator to the values of the arguments.
Whatever evaluates to a value compiles to a program with that value. Evaluation looks for
functions only and compilation for special forms too, so this needs an environment in which no
special form hides a function.
-/
namespace Formulary

namespace Environment

/-- The newest binding of a symbol, whatever its kind. -/
def newest? (env : Environment) (s : Symbol) : Option Binding :=
  env.bindings.find? (·.symbol == s.normalize)

/-- No symbol that is bound to a function has a special form as its newest binding. -/
def FunctionsVisible (env : Environment) : Prop :=
  ∀ s, (∃ b ∈ env.bindings, b.symbol = s.normalize ∧ b.meaning.function? ≠ none) →
    ∀ b, env.newest? s = some b → b.meaning.function? ≠ none

/-- The values of the functions depend on the arguments only, not on the place of the call. -/
def ArgumentsOnly (env : Environment) : Prop :=
  ∀ b ∈ env.bindings, ∀ f, b.meaning.function? = some f →
    ∀ l l' args v, f.run l args = .ok v → f.run l' args = .ok v

theorem resolve?_both (env : Environment) (s : Symbol) : env.resolve? s .both = env.newest? s := by
  have hmeets : ∀ k : BindingKind, k.meets .both = true := by
    intro k
    cases k <;> rfl
  simp only [resolve?, newest?, hmeets, Bool.and_true]

theorem function?_eq_some {env : Environment} {s : Symbol} {f : FunctionDef}
    (h : env.function? s = some f) :
    ∃ b ∈ env.bindings, b.symbol = s.normalize ∧ b.meaning.function? = some f := by
  obtain ⟨b, hb, hf⟩ := Option.bind_eq_some_iff.1 h
  have hmatch := List.find?_some hb
  rw [Bool.and_eq_true, beq_iff_eq] at hmatch
  exact ⟨b, List.mem_of_find?_eq_some hb, hmatch.1, hf⟩

/-- Where functions are visible, compilation finds a function for every symbol for which
evaluation finds one. -/
theorem FunctionsVisible.resolve?_both {env : Environment} (hv : env.FunctionsVisible) {s : Symbol}
    {f : FunctionDef} (h : env.function? s = some f) :
    ∃ b, env.resolve? s .both = some b ∧ b.meaning.function? ≠ none := by
  obtain ⟨b, hmem, hsymbol, hf⟩ := function?_eq_some h
  have hsome : (env.newest? s).isSome = true := by
    rw [newest?, List.find?_isSome]
    exact ⟨b, hmem, by rw [hsymbol, beq_self_eq_true]⟩
  obtain ⟨newest, hnewest⟩ := Option.isSome_iff_exists.1 hsome
  rw [env.resolve?_both s]
  exact ⟨newest, hnewest, hv s ⟨b, hmem, hsymbol, by simp [hf]⟩ newest hnewest⟩

/-- Symbols that are bound only once hide nothing. -/
theorem functionsVisible_of_nodup {env : Environment}
    (h : (env.bindings.map Binding.symbol).Nodup) : env.FunctionsVisible := by
  rintro s ⟨b, hb, hs, hf⟩ newest hnewest
  have hsymbol := List.find?_some hnewest
  rw [beq_iff_eq] at hsymbol
  have hsame : b = newest :=
    List.inj_on_of_nodup_map h hb (List.mem_of_find?_eq_some hnewest) (hs.trans hsymbol.symm)
  rwa [← hsame]

theorem functionsVisible_standard : standard.FunctionsVisible :=
  functionsVisible_of_nodup (by decide)

theorem located_ok {g : List Native → Except EvalFault Native} {l : Location}
    {args : List Native} {v : Native} (h : Arithmetic.located g l args = .ok v) (l' : Location) :
    Arithmetic.located g l' args = .ok v := by
  unfold Arithmetic.located at *
  cases hg : g args with
  | error fault => rw [hg] at h; cases h
  | ok w => rw [hg] at h; rw [← h]; rfl

theorem bindings_standard : standard.bindings = [.ofSpecial Conditional.specialForm,
    .ofFunction ⟨⟨"-", Symbol.formulaSpace⟩, "sub", Arithmetic.located Arithmetic.sub⟩,
    .ofFunction ⟨⟨"+", Symbol.formulaSpace⟩, "add", Arithmetic.located Arithmetic.add⟩] := rfl

theorem argumentsOnly_standard : standard.ArgumentsOnly := by
  intro b hb f hf l l' args v h
  simp only [bindings_standard, List.mem_cons, List.not_mem_nil, or_false] at hb
  obtain rfl | rfl | rfl := hb
  · cases hf
  · cases hf
    exact located_ok h l'
  · cases hf
    exact located_ok h l'

end Environment

namespace Node

mutual

/-- The value of a program. A reference has a value only as the operator of a call, and a
conditional has none. -/
def value? (env : Environment) : Node → Option Native
  | .constant _ e => some e.native
  | .call _ (.reference _ operator) args => do
    let f ← env.function? operator
    let values ← values? env args
    (f.run {} values).toOption
  | _ => none

/-- The values of the arguments, from left to right. -/
def values? (env : Environment) : List Node → Option (List Native)
  | [] => some []
  | n :: ns => do
    let v ← value? env n
    let vs ← values? env ns
    return v :: vs

end

mutual

/-- The program is made of constants and of calls of named functions: it has no conditional, and
references only as operators. -/
def Applicative : Node → Prop
  | .constant _ _ => True
  | .call _ (.reference _ _) args => ApplicativeAll args
  | _ => False

def ApplicativeAll : List Node → Prop
  | [] => True
  | n :: ns => Applicative n ∧ ApplicativeAll ns

end

end Node

/-- An integer fits into 64 bits. -/
def Atom.Fits : Atom → Prop
  | .int _ n => IntKind.int64.contains n = true
  | _ => True

namespace Expr

variable {env : Environment}

def CompilesTo (env : Environment) (e : Expr) (v : Native) : Prop :=
  ∃ n, e.compile env = .ok n ∧ n.value? env = some v ∧ n.Applicative

theorem compilesTo_atom {source : Source} {a : Atom} (hfit : a.Fits) {l : Location} {v : Native}
    (h : (Expr.atom source a).evalAt env l = .ok v) : CompilesTo env (.atom source a) v := by
  cases a with
  | symbol s => rw [evalAt] at h; cases h
  | int kind n =>
    cases h
    have hn : IntKind.int64.contains n = true := hfit
    refine ⟨.constant source (.atom none (.int .int64 n)), ?_, rfl, trivial⟩
    rw [compile_scalar env source (by simp), constant, if_pos hn]
  | _ =>
    cases h
    exact ⟨_, compile_scalar env source (by simp), rfl, trivial⟩

theorem compilesTo_args {es : List Expr}
    (hes : ∀ e ∈ es, ∀ l v, e.evalAt env l = .ok v → CompilesTo env e v) {l : Location}
    {vs : List Native} (h : evalArgs env l es = .ok vs) (index : Nat) :
    ∃ ns, compileArgs env index es = .ok ns ∧ Node.values? env ns = some vs ∧
      Node.ApplicativeAll ns := by
  induction es generalizing vs index with
  | nil =>
    cases h
    exact ⟨[], compileArgs_nil env index, rfl, trivial⟩
  | cons e es ih =>
    rw [List.forall_mem_cons] at hes
    rw [evalArgs] at h
    cases hv : e.evalAt env l with
    | error err => rw [hv] at h; cases h
    | ok v =>
      cases hvs : evalArgs env l es with
      | error err => rw [hv, hvs] at h; cases h
      | ok vs' =>
        rw [hv, hvs] at h
        cases h
        obtain ⟨n, hn, hvalue, happ⟩ := hes.1 l v hv
        obtain ⟨ns, hns, hvalues, happs⟩ := ih hes.2 hvs (index + 1)
        refine ⟨n :: ns, ?_, ?_, happ, happs⟩
        · rw [compileArgs, hn, hns]
          rfl
        · rw [Node.values?, hvalue, hvalues]
          rfl

theorem evalAt_function {l : Location} {source : Source} {head : Expr} {args : List Expr}
    {operator : Symbol} {f : FunctionDef} (hhead : head.symbol? = some operator)
    (hf : env.function? operator = some f) :
    (Expr.list source (head :: args)).evalAt env l =
      evalArgs env (l.enter source) args >>= f.run (l.enter source) := by
  simp only [evalAt, hhead, hf]

theorem compile_function {source : Source} {head : Expr} {args : List Expr}
    {operator : Symbol} {b : Binding} (hhead : head.symbol? = some operator)
    (hresolve : env.resolve? operator .both = some b) (hfunction : b.meaning.function? ≠ none) :
    (Expr.list source (head :: args)).compile env =
      (compileArgs env 0 args).map (.call source (.reference head.source operator)) := by
  obtain ⟨symbol, meaning⟩ := b
  cases meaning with
  | special form => exact absurd rfl hfunction
  | _ =>
    simp only [compile, hhead, hresolve]
    cases compileArgs env 0 args <;> rfl

theorem compile_of_function (hv : env.FunctionsVisible) {source : Source} {head : Expr}
    {args : List Expr} {operator : Symbol} {f : FunctionDef} {ns : List Node}
    (hhead : head.symbol? = some operator) (hf : env.function? operator = some f)
    (hns : compileArgs env 0 args = .ok ns) :
    (Expr.list source (head :: args)).compile env =
      .ok (.call source (.reference head.source operator) ns) := by
  obtain ⟨b, hresolve, hfunction⟩ := hv.resolve?_both hf
  rw [compile_function hhead hresolve hfunction, hns]
  rfl

/-- The induction over the expression; the location changes on the way down. -/
theorem compilesTo_of_evalAt (hv : env.FunctionsVisible) (ha : env.ArgumentsOnly) {e : Expr}
    (hfit : e.Leaves Atom.Fits) {l : Location} {v : Native} (h : e.evalAt env l = .ok v) :
    CompilesTo env e v := by
  induction e generalizing l v with
  | atom source a => exact compilesTo_atom (leaves_atom.1 hfit) h
  | list source es ih =>
    rw [leaves_list] at hfit
    cases es with
    | nil => rw [evalAt] at h; cases h
    | cons head args =>
      rw [evalAt] at h
      cases hhead : head.symbol? with
      | none => simp only [hhead] at h; cases h
      | some operator =>
        cases hf : env.function? operator with
        | none => simp only [hhead, hf] at h; cases h
        | some f =>
          cases hvs : evalArgs env (l.enter source) args with
          | error err => simp only [hhead, hf, hvs] at h; cases h
          | ok vs =>
            simp only [hhead, hf, hvs] at h
            have hargs : ∀ e ∈ args, ∀ l v, e.evalAt env l = .ok v → CompilesTo env e v :=
              fun e he _ _ => ih e (List.mem_cons_of_mem head he)
                (hfit e (List.mem_cons_of_mem head he))
            obtain ⟨ns, hns, hvalues, happ⟩ := compilesTo_args hargs hvs 0
            refine ⟨_, compile_of_function hv hhead hf hns, ?_, happ⟩
            obtain ⟨b, hb, _, hbf⟩ := Environment.function?_eq_some hf
            have hrun : f.run {} vs = .ok v := ha b hb f hbf _ _ vs v h
            rw [Node.value?, hf, hvalues]
            simp only [bind, Option.bind, hrun]
            rfl

/-- Compilation preserves meaning: what evaluates to a value compiles to an applicative program
with the same value. -/
theorem compile_value (env : Environment) (hv : env.FunctionsVisible) (ha : env.ArgumentsOnly)
    (e : Expr) (hfit : e.Leaves Atom.Fits) (v : Native) (h : e.eval env = .ok v) :
    ∃ n, e.compile env = .ok n ∧ n.value? env = some v ∧ n.Applicative :=
  compilesTo_of_evalAt hv ha hfit h

theorem compile_value_nested :
    ∃ n, Expr.compile .standard
        (.list none [.atom none (.symbol ⟨"+", ""⟩), .atom none (.int .int32 40),
          .list (some (.str "f:7")) [.atom none (.symbol ⟨"-", ""⟩),
            .atom none (.int .uint64 2)]]) = .ok n ∧
      n.value? .standard = some (.int 38) ∧ n.Applicative := by
  refine compile_value .standard Environment.functionsVisible_standard
    Environment.argumentsOnly_standard _ ?_ (.int 38) rfl
  simp only [leaves_list, List.forall_mem_cons, leaves_atom, Atom.Fits, List.not_mem_nil,
    false_implies, implies_true, and_true, true_and]
  decide

end Expr

end Formulary
