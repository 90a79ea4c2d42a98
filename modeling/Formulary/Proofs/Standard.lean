import Formulary.Proofs.Program.Meaning
import Formulary.Session

/-!
# The operators of the standard environment

Each of the three operators can be written without namespace or in the namespace of formulas, and
the standard environment knows nothing else.
-/
namespace Formulary

namespace Symbol

variable {s : Symbol} {name : String}

/-- The symbol is the name of an operator, without namespace or in that of formulas. -/
def Denotes (s : Symbol) (name : String) : Prop :=
  s.name = name ∧ (s.space = "" ∨ s.space = formulaSpace)

instance : Decidable (s.Denotes name) := inferInstanceAs (Decidable (_ ∧ _))

theorem denotes_iff : s.Denotes name ↔ s.normalize = ⟨name, formulaSpace⟩ := by
  obtain ⟨own, space⟩ := s
  rw [Denotes, normalize, Symbol.mk.injEq]
  by_cases hspace : space = ""
  · simp [hspace]
  · simp [hspace]

end Symbol

namespace Environment

variable {s : Symbol}

theorem function?_add (h : s.Denotes "+") :
    standard.function? s =
      some ⟨⟨"+", Symbol.formulaSpace⟩, "add", Arithmetic.located Arithmetic.add⟩ := by
  rw [function?, resolve?, Symbol.denotes_iff.1 h, bindings_standard]
  rfl

theorem function?_sub (h : s.Denotes "-") :
    standard.function? s =
      some ⟨⟨"-", Symbol.formulaSpace⟩, "sub", Arithmetic.located Arithmetic.sub⟩ := by
  rw [function?, resolve?, Symbol.denotes_iff.1 h, bindings_standard]
  rfl

theorem function?_eq_none (hadd : ¬ s.Denotes "+") (hsub : ¬ s.Denotes "-") :
    standard.function? s = none := by
  rw [Symbol.denotes_iff] at hadd hsub
  rw [Option.eq_none_iff_forall_not_mem]
  intro f hf
  obtain ⟨b, hb, hsymbol, hfunction⟩ := function?_eq_some hf
  simp only [bindings_standard, List.mem_cons, List.not_mem_nil, or_false] at hb
  obtain rfl | rfl | rfl := hb
  · cases hfunction
  · exact hsub hsymbol.symm
  · exact hadd hsymbol.symm

theorem resolve?_arithmetic (h : s.Denotes "+" ∨ s.Denotes "-") :
    ∃ b, standard.resolve? s .both = some b ∧ b.meaning.function? ≠ none := by
  rcases h with h | h
  · exact functionsVisible_standard.resolve?_both (function?_add h)
  · exact functionsVisible_standard.resolve?_both (function?_sub h)

theorem resolve?_conditional (h : s.Denotes "if") :
    standard.resolve? s .both = some (.ofSpecial Conditional.specialForm) := by
  rw [resolve?, Symbol.denotes_iff.1 h, bindings_standard]
  rfl

theorem resolve?_eq_none (hadd : ¬ s.Denotes "+") (hsub : ¬ s.Denotes "-")
    (hif : ¬ s.Denotes "if") : standard.resolve? s .both = none := by
  rw [Symbol.denotes_iff] at hadd hsub hif
  rw [resolve?_both, newest?, bindings_standard, List.find?_eq_none]
  intro b hb hsymbol
  rw [beq_iff_eq] at hsymbol
  simp only [List.mem_cons, List.not_mem_nil, or_false] at hb
  obtain rfl | rfl | rfl := hb
  · exact hif hsymbol.symm
  · exact hsub hsymbol.symm
  · exact hadd hsymbol.symm

end Environment

namespace Expr

/-- The expression is a symbol for the operator of that name. -/
def isOperator (name : String) (e : Expr) : Bool :=
  e.symbol?.any fun s => s.Denotes name

theorem isOperator_iff {name : String} {e : Expr} :
    e.isOperator name = true ↔ ∃ s, e.symbol? = some s ∧ s.Denotes name := by
  simp [isOperator, Option.any_eq_true]

theorem isOperator_inj {e : Expr} {name name' : String} (h : e.isOperator name = true)
    (h' : e.isOperator name' = true) : name = name' := by
  obtain ⟨s, hs, hname, -⟩ := isOperator_iff.1 h
  obtain ⟨s', hs', hname', -⟩ := isOperator_iff.1 h'
  cases hs.symm.trans hs'
  exact hname.symm.trans hname'

end Expr

end Formulary
