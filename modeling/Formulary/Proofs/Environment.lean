import Formulary.Environment
import Mathlib.Data.List.Basic

/-!
# Histories of environments

An environment that was extended step by step is described by the bindings that were added, the
oldest first. A symbol means the last of them that is bound to it and meets the kind; so only the
bindings of a symbol matter to it, and of these only the ones of a kind that is asked for.
-/
namespace Formulary

namespace BindingKind

/-- The kinds are the sets of two flags that are not empty. -/
def mask : BindingKind → BitVec 2
  | .function => 1
  | .special => 2
  | .both => 3

theorem meets_iff {k k' : BindingKind} : k.meets k' = true ↔ k.mask &&& k'.mask ≠ 0 := by
  cases k <;> cases k' <;> decide

end BindingKind

namespace Environment

/-- A way of extending an environment. -/
inductive Extension where
  | bind (b : Binding)
  | bindAll (bs : List Binding)
  | define (f : FunctionDef)
  | defineSpecial (s : SpecialForm)

namespace Extension

def apply (env : Environment) : Extension → Environment
  | .bind b => env.bind b
  | .bindAll bs => env.bindAll bs
  | .define f => env.define f
  | .defineSpecial s => env.defineSpecial s

/-- The bindings that are added, as they are handed in. -/
def added : Extension → List Binding
  | .bind b => [b]
  | .bindAll bs => bs
  | .define f => [.ofFunction f]
  | .defineSpecial s => [.ofSpecial s]

theorem apply_eq (env : Environment) (x : Extension) : x.apply env = env.bindAll x.added := by
  cases x <;> rfl

end Extension

/-- The environment that some extensions make of the empty one. -/
def ofHistory (history : List Extension) : Environment := history.foldl Extension.apply empty

/-- The bindings of a history, the oldest first. -/
def addedBy (history : List Extension) : List Binding :=
  (history.flatMap Extension.added).map Binding.normalize

theorem bindAll_cons (env : Environment) (b : Binding) (bs : List Binding) :
    env.bindAll (b :: bs) = (env.bind b).bindAll bs := rfl

theorem bindAll_append (env : Environment) (bs bs' : List Binding) :
    env.bindAll (bs ++ bs') = (env.bindAll bs).bindAll bs' := List.foldl_append

theorem foldl_apply (history : List Extension) (env : Environment) :
    history.foldl Extension.apply env = env.bindAll (history.flatMap Extension.added) := by
  induction history generalizing env with
  | nil => rfl
  | cons x history ih => rw [List.foldl_cons, ih, x.apply_eq, List.flatMap_cons, bindAll_append]

theorem bindings_bindAll (env : Environment) (bs : List Binding) :
    (env.bindAll bs).bindings = (bs.map Binding.normalize).reverse ++ env.bindings := by
  induction bs generalizing env with
  | nil => rfl
  | cons b bs ih =>
    rw [bindAll_cons, ih, List.map_cons, List.reverse_cons, List.append_assoc]
    rfl

theorem depth_bindAll (env : Environment) (bs : List Binding) :
    (env.bindAll bs).depth = env.depth + bs.length := by
  induction bs generalizing env with
  | nil => rfl
  | cons b bs ih =>
    have hbind : (env.bind b).depth = env.depth + 1 := rfl
    rw [bindAll_cons, ih, hbind, List.length_cons]
    omega

theorem bindings_ofHistory (history : List Extension) :
    (ofHistory history).bindings = (addedBy history).reverse := by
  have hempty : empty.bindings = [] := rfl
  rw [ofHistory, foldl_apply, bindings_bindAll, hempty, List.append_nil, addedBy]

theorem depth_ofHistory (history : List Extension) :
    (ofHistory history).depth = (addedBy history).length := by
  have hempty : empty.depth = 0 := rfl
  rw [ofHistory, foldl_apply, depth_bindAll, hempty, Nat.zero_add, addedBy, List.length_map]

/-- The binding is one of the symbol, and of the kind. -/
def Answers (s : Symbol) (kind : BindingKind) (b : Binding) : Bool :=
  b.symbol == s.normalize && b.meaning.kind.mask &&& kind.mask != 0

theorem resolve?_ofHistory (history : List Extension) (s : Symbol) (kind : BindingKind) :
    (ofHistory history).resolve? s kind = ((addedBy history).filter (Answers s kind)).getLast? := by
  have hanswers : (fun b : Binding => b.symbol == s.normalize && b.meaning.kind.meets kind) =
      Answers s kind := by
    funext b
    rw [Answers, Bool.eq_iff_iff, Bool.and_eq_true, Bool.and_eq_true, BindingKind.meets_iff,
      bne_iff_ne]
  rw [resolve?, bindings_ofHistory, hanswers, ← List.head?_filter, List.filter_reverse,
    List.head?_reverse]

/-- What a symbol means depends only on the bindings of it. -/
theorem resolve?_congr {history history' : List Extension} {s : Symbol}
    (h : (addedBy history).filter (·.symbol == s.normalize) =
      (addedBy history').filter (·.symbol == s.normalize)) (kind : BindingKind) :
    (ofHistory history).resolve? s kind = (ofHistory history').resolve? s kind := by
  have hsplit : ∀ bs : List Binding, bs.filter (Answers s kind) =
      (bs.filter (·.symbol == s.normalize)).filter
        (fun b => b.meaning.kind.mask &&& kind.mask != 0) := by
    intro bs
    rw [List.filter_filter]
    exact List.filter_congr fun b _ => Bool.and_comm _ _
  rw [resolve?_ofHistory, resolve?_ofHistory, hsplit, hsplit, h]

/-- Special forms have no part in looking up a function. -/
theorem resolve?_function_congr {history history' : List Extension}
    (h : (addedBy history).filter (·.meaning.kind != .special) =
      (addedBy history').filter (·.meaning.kind != .special)) (s : Symbol) :
    (ofHistory history).resolve? s .function = (ofHistory history').resolve? s .function := by
  have hkind : ∀ k : BindingKind,
      (k.mask &&& BindingKind.function.mask != 0) = (k != .special) := by
    intro k
    cases k <;> rfl
  have hsplit : ∀ bs : List Binding, bs.filter (Answers s .function) =
      (bs.filter (·.meaning.kind != .special)).filter (·.symbol == s.normalize) := by
    intro bs
    rw [List.filter_filter]
    exact List.filter_congr fun b _ => by rw [Answers, hkind]
  rw [resolve?_ofHistory, resolve?_ofHistory, hsplit, hsplit, h]

/-- A symbol means the last binding of its history that is bound to it and meets the kind, and
nothing if there is none. Hence the namespace of formulas may be left out, special forms do not
hide functions from those who look for functions, and the order of bindings of different symbols
makes no difference. -/
theorem newest_of_history (history : List Extension) :
    let env := ofHistory history
    (∀ s kind, env.resolve? s kind = ((addedBy history).filter (Answers s kind)).getLast?) ∧
      env.bindings = (addedBy history).reverse ∧
      env.depth = (addedBy history).length ∧
      (∀ name kind, env.resolve? ⟨name, ""⟩ kind = env.resolve? ⟨name, Symbol.formulaSpace⟩ kind) ∧
      (∀ history', (addedBy history).filter (·.meaning.kind != .special) =
          (addedBy history').filter (·.meaning.kind != .special) →
        ∀ s, env.resolve? s .function = (ofHistory history').resolve? s .function) ∧
      ∀ history', (∀ s : Symbol, (addedBy history).filter (·.symbol == s.normalize) =
          (addedBy history').filter (·.symbol == s.normalize)) →
        ∀ s kind, env.resolve? s kind = (ofHistory history').resolve? s kind := by
  intro env
  have hspace : ¬ Symbol.formulaSpace = "" := by decide
  have hqualified : ∀ name, Symbol.normalize ⟨name, Symbol.formulaSpace⟩ =
      Symbol.normalize ⟨name, ""⟩ := fun name => if_neg hspace
  refine ⟨resolve?_ofHistory history, bindings_ofHistory history, depth_ofHistory history, ?_,
    fun history' h s => resolve?_function_congr h s, fun history' h s => resolve?_congr (h s)⟩
  intro name kind
  rw [resolve?, resolve?, hqualified]

theorem newest_of_history_shadowed :
    let f : FunctionDef := ⟨⟨"f", ""⟩, "f", fun _ _ => .ok .none⟩
    let s : SpecialForm := ⟨⟨"f", Symbol.formulaSpace⟩, "f", fun _ _ => .error .emptyList⟩
    let g : Binding := ⟨⟨"g", ""⟩, .both f⟩
    let env := ofHistory [.define f, .bindAll [g], .defineSpecial s]
    let env' := ofHistory [.bind g, .define f, .defineSpecial s]
    env.resolve? ⟨"f", ""⟩ .both = some (Binding.ofSpecial s).normalize ∧
      env.resolve? ⟨"f", ""⟩ .function = some (Binding.ofFunction f).normalize ∧
      ∀ u kind, env.resolve? u kind = env'.resolve? u kind := by
  intro f s g env env'
  obtain ⟨hnewest, -, -, -, hfunctions, horder⟩ :=
    newest_of_history [.define f, .bindAll [g], .defineSpecial s]
  refine ⟨(hnewest _ _).trans (by cbv), hfunctions [.define f, .bind g] rfl _, horder _ fun u => ?_⟩
  let bf := (Binding.ofFunction f).normalize
  let bs := (Binding.ofSpecial s).normalize
  have hswap : [bf, g.normalize, bs].filter (·.symbol == u.normalize) =
      [g.normalize, bf, bs].filter (·.symbol == u.normalize) := by
    rcases eq_or_ne g.normalize.symbol u.normalize with h | h
    · rw [← h]
      rfl
    · rw [← beq_eq_false_iff_ne] at h
      simp only [List.filter_cons, h, Bool.false_eq_true, if_false]
  exact hswap

end Environment

end Formulary
