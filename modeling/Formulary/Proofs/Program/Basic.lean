import Formulary.Program.Message
import Formulary.Proofs.Expr.Basic

/-!
# Programs and their nodes

An induction principle for programs, their source contexts and constants in the order of the
nodes, and the same program with other source contexts, which is equal to it unless a constant
holds `nan`.
-/
namespace Formulary

namespace Node

@[elab_as_elim, induction_eliminator]
theorem induction {motive : Node → Prop} (constant : ∀ source e, motive (.constant source e))
    (reference : ∀ source s, motive (.reference source s))
    (call : ∀ source f args, motive f → (∀ n ∈ args, motive n) → motive (.call source f args))
    (ifThen : ∀ source test consequent, motive test → motive consequent →
      motive (.ifThen source test consequent))
    (ifThenElse : ∀ source test consequent alternative, motive test → motive consequent →
      motive alternative → motive (.ifThenElse source test consequent alternative))
    (n : Node) : motive n :=
  @Node.rec motive (fun args => ∀ n ∈ args, motive n) constant reference call ifThen ifThenElse
    (fun _ h => absurd h List.not_mem_nil)
    (fun _ _ hn hns => List.forall_mem_cons.2 ⟨hn, hns⟩) n

mutual

/-- The source contexts of the nodes, those of the parts after that of the whole. -/
def sources : Node → List Source
  | .constant s _ => [s]
  | .reference s _ => [s]
  | .call s f as => s :: sources f ++ sourcesAll as
  | .ifThen s t a => s :: sources t ++ sources a
  | .ifThenElse s t a b => s :: sources t ++ sources a ++ sources b

def sourcesAll : List Node → List Source
  | [] => []
  | n :: ns => sources n ++ sourcesAll ns

end

mutual

def constants : Node → List Expr
  | .constant _ e => [e]
  | .reference _ _ => []
  | .call _ f as => constants f ++ constantsAll as
  | .ifThen _ t a => constants t ++ constants a
  | .ifThenElse _ t a b => constants t ++ constants a ++ constants b

def constantsAll : List Node → List Expr
  | [] => []
  | n :: ns => constants n ++ constantsAll ns

end

mutual

/-- The program with other source contexts, and without any inside its constants. -/
def relocate (g : Source → Source) : Node → Node
  | .constant s e => .constant (g s) e.bare
  | .reference s v => .reference (g s) v
  | .call s f as => .call (g s) (relocate g f) (relocateAll g as)
  | .ifThen s t a => .ifThen (g s) (relocate g t) (relocate g a)
  | .ifThenElse s t a b => .ifThenElse (g s) (relocate g t) (relocate g a) (relocate g b)

def relocateAll (g : Source → Source) : List Node → List Node
  | [] => []
  | n :: ns => relocate g n :: relocateAll g ns

end

theorem sourcesAll_eq (ns : List Node) : sourcesAll ns = ns.flatMap sources := by
  induction ns with
  | nil => rfl
  | cons n ns ih => rw [sourcesAll, ih, List.flatMap_cons]

theorem constantsAll_eq (ns : List Node) : constantsAll ns = ns.flatMap constants := by
  induction ns with
  | nil => rfl
  | cons n ns ih => rw [constantsAll, ih, List.flatMap_cons]

theorem relocateAll_eq (g : Source → Source) (ns : List Node) :
    relocateAll g ns = ns.map (relocate g) := by
  induction ns with
  | nil => rfl
  | cons n ns ih => rw [relocateAll, ih, List.map_cons]

theorem toMessages_eq (sourced : Bool) (ns : List Node) :
    toMessages sourced ns = ns.map (toMessage sourced) := by
  induction ns with
  | nil => rfl
  | cons n ns ih => rw [toMessages, ih, List.map_cons]

/-! ## Other source contexts -/

variable (g : Source → Source)

theorem sources_relocate (n : Node) : (n.relocate g).sources = n.sources.map g := by
  induction n with
  | constant s e => rfl
  | reference s v => rfl
  | call s f as hf has =>
    have hall : (as.map (relocate g)).flatMap sources = (as.flatMap sources).map g := by
      rw [List.flatMap_map, List.map_flatMap]
      exact List.flatMap_congr has
    rw [relocate, relocateAll_eq, sources, sources, sourcesAll_eq, sourcesAll_eq, hf, hall,
      List.map_append, List.map_cons]
  | ifThen s t a ht ha =>
    rw [relocate, sources, sources, ht, ha, List.map_append, List.map_cons]
  | ifThenElse s t a b ht ha hb =>
    rw [relocate, sources, sources, ht, ha, hb, List.map_append, List.map_append, List.map_cons]

theorem constants_relocate (n : Node) : (n.relocate g).constants = n.constants.map Expr.bare := by
  induction n with
  | constant s e => rfl
  | reference s v => rfl
  | call s f as hf has =>
    have hall : (as.map (relocate g)).flatMap constants = (as.flatMap constants).map Expr.bare := by
      rw [List.flatMap_map, List.map_flatMap]
      exact List.flatMap_congr has
    rw [relocate, relocateAll_eq, constants, constants, constantsAll_eq, constantsAll_eq, hf, hall,
      List.map_append]
  | ifThen s t a ht ha => rw [relocate, constants, constants, ht, ha, List.map_append]
  | ifThenElse s t a b ht ha hb =>
    rw [relocate, constants, constants, ht, ha, hb, List.map_append, List.map_append]

theorem relocate_relocate (h : Source → Source) (n : Node) :
    (n.relocate g).relocate h = n.relocate (h ∘ g) := by
  induction n with
  | constant s e => rw [relocate, relocate, relocate, e.bare_bare, Function.comp]
  | reference s v => rfl
  | call s f as hf has =>
    have hall : (as.map (relocate g)).map (relocate h) = as.map (relocate (h ∘ g)) := by
      rw [List.map_map]
      exact List.map_congr_left has
    rw [relocate, relocate, relocate, relocateAll_eq, relocateAll_eq, relocateAll_eq, hf, hall,
      Function.comp]
  | ifThen s t a ht ha => rw [relocate, relocate, relocate, ht, ha, Function.comp]
  | ifThenElse s t a b ht ha hb => rw [relocate, relocate, relocate, ht, ha, hb, Function.comp]

theorem sameAll_map {ns : List Node} (h : ∀ n ∈ ns, (n.relocate g).same n = true) :
    sameAll (ns.map (relocate g)) ns = true := by
  induction ns with
  | nil => rfl
  | cons n ns ih =>
    rw [List.forall_mem_cons] at h
    rw [List.map_cons, sameAll, h.1, ih h.2, Bool.and_self]

/-- Source contexts take no part in the equality of programs. -/
theorem same_relocate {n : Node} (h : ∀ e ∈ n.constants, e.Leaves Atom.NotNan) :
    (n.relocate g).same n = true := by
  induction n with
  | constant s e =>
    rw [constants, List.forall_mem_singleton] at h
    exact Expr.same_of_bare_eq e.bare_bare h
  | reference s v => exact beq_self_eq_true v
  | call s f as hf has =>
    rw [constants, constantsAll_eq, List.forall_mem_append] at h
    have hall : ∀ n ∈ as, (n.relocate g).same n = true := fun n hn =>
      has n hn fun e he => h.2 e (List.mem_flatMap.2 ⟨n, hn, he⟩)
    rw [relocate, relocateAll_eq, same, hf h.1, sameAll_map g hall, Bool.and_self]
  | ifThen s t a ht ha =>
    rw [constants, List.forall_mem_append] at h
    rw [relocate, same, ht h.1, ha h.2, Bool.and_self]
  | ifThenElse s t a b ht ha hb =>
    rw [constants, List.forall_mem_append, List.forall_mem_append] at h
    rw [relocate, same, ht h.1.1, ha h.1.2, hb h.2, Bool.and_self, Bool.and_self]

end Node

end Formulary
