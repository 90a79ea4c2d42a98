import Formulary.Expr.Parser
import Formulary.Proofs.Text.Run

/-!
# Symbols and their literals

The first colon of a literal divides it into a namespace and a name, and a second colon right
behind the first is skipped. So a symbol is read back from its text unless a colon of its own is
taken for the one that divides.
-/
namespace Formulary.Symbol

open Text (Stops stops_nil takeWhile_run dropWhile_run)

/-- How a literal is divided into the parts of a symbol. -/
inductive Divides : List Char → Symbol → Prop where
  | plain {name : List Char} (h : ':' ∉ name) : Divides name ⟨String.ofList name, ""⟩
  | colon {space name : List Char} (hspace : ':' ∉ space) (hname : name.head? ≠ some ':') :
      Divides (space ++ ':' :: name)
        ⟨String.ofList name, if space = [] then keywordSpace else String.ofList space⟩
  | colons {space : List Char} (name : List Char) (hspace : ':' ∉ space) (hne : space ≠ []) :
      Divides (space ++ ':' :: ':' :: name) ⟨String.ofList name, String.ofList space⟩

variable {literal space name : List Char} {s : Symbol}

/-! ## Reading a literal -/

/-- A literal has no colon, or one that divides it, or two of them in a row. -/
theorem literal_cases (literal : List Char) :
    ':' ∉ literal ∨
      (∃ space name, literal = space ++ ':' :: name ∧ ':' ∉ space ∧ name.head? ≠ some ':') ∨
      ∃ space name, literal = space ++ ':' :: ':' :: name ∧ ':' ∉ space := by
  by_cases h : ':' ∈ literal
  · obtain ⟨space, rest, rfl, hspace⟩ := List.eq_append_cons_of_mem h
    by_cases hrest : rest.head? = some ':'
    · obtain ⟨name, rfl⟩ := List.head?_eq_some_iff.1 hrest
      exact .inr (.inr ⟨space, name, rfl, hspace⟩)
    · exact .inr (.inl ⟨space, rest, rfl, hspace, hrest⟩)
  · exact .inl h

theorem ne_colon_of_notMem (h : ':' ∉ space) : ∀ c ∈ space, (c != ':') = true := by
  intro c hc
  rw [bne_iff_ne]
  rintro rfl
  exact h hc

theorem parse?_plain (h : ':' ∉ literal) : parse? literal = some ⟨String.ofList literal, ""⟩ := by
  have hall := ne_colon_of_notMem h
  have htake := takeWhile_run hall (stops_nil (p := (· != ':')))
  have hdrop := dropWhile_run hall (stops_nil (p := (· != ':')))
  rw [List.append_nil] at htake hdrop
  rw [parse?, htake, hdrop]

theorem parse?_colon (hspace : ':' ∉ space) (hname : name.head? ≠ some ':') :
    parse? (space ++ ':' :: name) =
      some ⟨String.ofList name, if space = [] then keywordSpace else String.ofList space⟩ := by
  have hall := ne_colon_of_notMem hspace
  have hstop : Stops (· != ':') (':' :: name) := by simp
  rw [parse?, takeWhile_run hall hstop, dropWhile_run hall hstop]
  split
  next name' he =>
    rw [List.cons.injEq] at he
    rw [he.2] at hname
    exact absurd rfl hname
  next name' _ he =>
    rw [List.cons.injEq] at he
    rw [← he.2]
    simp only [String.ofList_eq_empty_iff]
  next he => exact absurd rfl (he name)

theorem parse?_colons (name : List Char) (hspace : ':' ∉ space) :
    parse? (space ++ ':' :: ':' :: name) =
      if space = [] then none else some ⟨String.ofList name, String.ofList space⟩ := by
  have hall := ne_colon_of_notMem hspace
  have hstop : Stops (· != ':') (':' :: ':' :: name) := by simp
  rw [parse?, takeWhile_run hall hstop, dropWhile_run hall hstop]
  simp only [String.ofList_eq_empty_iff]

/-- A literal denotes the symbol into whose parts it is divided. -/
theorem parse?_eq_some_iff : parse? literal = some s ↔ Divides literal s := by
  constructor
  · intro h
    obtain hplain | ⟨space, name, rfl, hspace, hname⟩ | ⟨space, name, rfl, hspace⟩ :=
      literal_cases literal
    · rw [parse?_plain hplain] at h
      cases h
      exact .plain hplain
    · rw [parse?_colon hspace hname] at h
      cases h
      exact .colon hspace hname
    · rw [parse?_colons name hspace] at h
      split_ifs at h with hne
      cases h
      exact .colons name hspace hne
  · intro h
    cases h with
    | plain hplain => exact parse?_plain hplain
    | colon hspace hname => exact parse?_colon hspace hname
    | colons name hspace hne => rw [parse?_colons name hspace, if_neg hne]

theorem parse?_eq_none_iff : parse? literal = none ↔ [':', ':'] <+: literal := by
  constructor
  · intro h
    obtain hplain | ⟨space, name, rfl, hspace, hname⟩ | ⟨space, name, rfl, hspace⟩ :=
      literal_cases literal
    · rw [parse?_plain hplain] at h
      cases h
    · rw [parse?_colon hspace hname] at h
      cases h
    · rw [parse?_colons name hspace] at h
      split_ifs at h with hempty
      rw [hempty]
      exact ⟨name, rfl⟩
  · rintro ⟨name, rfl⟩
    exact parse?_colons name List.not_mem_nil

/-- A literal that denotes no symbol is a parse error. -/
theorem toExpr_symbol_error_iff (pos : Position) (literal : List Char) :
    (∃ err, (Form.symbol pos literal).toExpr = .error err ∧ err.kind = .parsing) ↔
      parse? literal = none := by
  simp only [Form.toExpr, Form.toAtom]
  cases parse? literal with
  | none => exact iff_of_true ⟨.badSymbol literal, rfl, rfl⟩ rfl
  | some s =>
    refine iff_of_false ?_ (Option.some_ne_none s)
    rintro ⟨err, herr, -⟩
    cases herr

/-! ## Reading a text back -/

theorem chars_qualified (h : s.space ≠ "") :
    s.chars = (if s.space = keywordSpace then [] else s.space.toList) ++ ':' :: s.name.toList :=
  if_neg h

theorem divides_plain_chars (hspace : s.space = "") (hname : ':' ∉ s.name.toList) :
    Divides s.chars s := by
  obtain ⟨name, space⟩ := s
  obtain rfl : space = "" := hspace
  have h := Divides.plain hname
  rwa [String.ofList_toList] at h

theorem divides_qualified_chars (hne : s.space ≠ "") (hspace : ':' ∉ s.space.toList)
    (hname : s.name.toList.head? ≠ some ':') : Divides s.chars s := by
  rw [chars_qualified hne]
  by_cases hkeyword : s.space = keywordSpace
  · have h := Divides.colon List.not_mem_nil hname
    rw [if_pos rfl, ← hkeyword, String.ofList_toList] at h
    rwa [if_pos hkeyword]
  · have hempty : s.space.toList ≠ [] := mt String.toList_eq_nil_iff.1 hne
    have h := Divides.colon hspace hname
    rw [if_neg hempty, String.ofList_toList, String.ofList_toList] at h
    rwa [if_neg hkeyword]

/-- A text that is divided at two colons has one of them from the name, and the symbol it denotes
is another one. -/
theorem chars_ne_colons (hne : space ≠ []) :
    chars ⟨String.ofList name, String.ofList space⟩ ≠ space ++ ':' :: ':' :: name := by
  intro h
  have hspace : String.ofList space ≠ "" := mt String.ofList_eq_empty_iff.1 hne
  rw [chars_qualified hspace, String.toList_ofList, String.toList_ofList] at h
  have hlength := congrArg List.length h
  simp only [List.length_append, List.length_cons] at hlength
  split at hlength
  · rw [List.length_nil] at hlength
    omega
  · omega

theorem parse?_chars_iff : parse? s.chars = some s ↔
    (s.space = "" ∧ ':' ∉ s.name.toList) ∨
      (s.space ≠ "" ∧ ':' ∉ s.space.toList ∧ s.name.toList.head? ≠ some ':') := by
  rw [parse?_eq_some_iff]
  constructor
  · intro h
    generalize hchars : s.chars = literal at h
    cases h with
    | plain hname => exact .inl ⟨rfl, by simpa using hname⟩
    | @colon space name hspace hname =>
      refine .inr ⟨?_, ?_, by simpa using hname⟩
      · dsimp only
        split
        · decide
        next hempty => exact mt String.ofList_eq_empty_iff.1 hempty
      · dsimp only
        split
        · decide
        · simpa using hspace
    | colons name hspace hne => exact absurd hchars (chars_ne_colons hne)
  · rintro (⟨hspace, hname⟩ | ⟨hne, hspace, hname⟩)
    · exact divides_plain_chars hspace hname
    · exact divides_qualified_chars hne hspace hname

/-- A symbol is read back from its text if and only if it has no namespace and no colon, or a
namespace without colon and a name that does not begin with one. Only the literals that begin with
two colons denote no symbol, and the others denote the one into whose parts they are divided. -/
theorem literal_grammar :
    (∀ s : Symbol, parse? s.chars = some s ↔
      (s.space = "" ∧ ':' ∉ s.name.toList) ∨
        (s.space ≠ "" ∧ ':' ∉ s.space.toList ∧ s.name.toList.head? ≠ some ':')) ∧
      (∀ pos literal, (parse? literal = none ↔ [':', ':'] <+: literal) ∧
        ((∃ err, (Form.symbol pos literal).toExpr = .error err ∧ err.kind = .parsing) ↔
          [':', ':'] <+: literal)) ∧
      ∀ literal s, parse? literal = some s ↔ Divides literal s := by
  refine ⟨fun s => parse?_chars_iff, ?_, fun literal s => parse?_eq_some_iff⟩
  intro pos literal
  refine ⟨parse?_eq_none_iff, ?_⟩
  rw [toExpr_symbol_error_iff, parse?_eq_none_iff]

end Formulary.Symbol
