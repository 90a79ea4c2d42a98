import Formulary.Proofs.Form.Placement

/-!
# The order of the forms of a text

Taken in pre-order, a list before its items and these from left to right, the forms of a text
begin one after the other with the tokens other than closing parentheses. The offsets of tokens
increase, and so do the positions of the forms.
-/
namespace Formulary.Form

/-- The tokens with which forms begin. -/
def starts (ts : List Token) : List Token := ts.filter (·.kind != .closing)

/-- The form begins with the token, which stands among the others. -/
def Begins (lines : LineIndex) (ts : List Token) (t : Token) (form : Form) : Prop :=
  ∃ rest, t :: rest <:+: ts ∧ Spells lines (t :: rest) form

variable {lines : LineIndex} {ts us : List Token} {t : Token} {form : Form}

theorem Begins.mono (h : Begins lines ts t form) (hsub : ts <:+: us) : Begins lines us t form := by
  obtain ⟨rest, hinfix, hspells⟩ := h
  exact ⟨rest, hinfix.trans hsub, hspells⟩

theorem begins_token (h : Spells lines ts form) (hform : ∀ pos items, form ≠ .list pos items) :
    List.Forall₂ (Begins lines ts) (starts ts) [form] := by
  obtain ⟨t, rfl, ht⟩ := h.exists_token hform
  have hstarts : starts [t] = [t] := by simp [starts, ht]
  rw [hstarts]
  exact .cons ⟨[], List.infix_refl _, h⟩ .nil

/-- The items of a list begin in their groups of tokens. -/
theorem begins_groups {groups : List (List Token)} {items : List Form}
    (hitems : ∀ form ∈ items, ∀ ts, Spells lines ts form →
      List.Forall₂ (Begins lines ts) (starts ts) form.preorder)
    (h : List.Forall₂ (Spells lines) groups items) :
    List.Forall₂ (Begins lines groups.flatten) (starts groups.flatten) (preorderAll items) := by
  induction h with
  | nil => exact .nil
  | @cons group form groups items hgroup _ ih =>
    obtain ⟨hform, hitems⟩ := List.forall_mem_cons.1 hitems
    rw [List.flatten_cons, preorderAll, starts, List.filter_append]
    have hfirst : group <:+: group ++ groups.flatten := (List.prefix_append _ _).isInfix
    have hrest : groups.flatten <:+: group ++ groups.flatten := (List.suffix_append _ _).isInfix
    exact List.rel_append ((hform group hgroup).imp fun _ _ h => h.mono hfirst)
      ((ih hitems).imp fun _ _ h => h.mono hrest)

/-- Every form inside another one begins with a token of that one, in the order of the tokens. -/
theorem begins_preorder (h : Spells lines ts form) :
    List.Forall₂ (Begins lines ts) (starts ts) form.preorder := by
  induction form generalizing ts with
  | list pos items ih =>
    obtain ⟨s, t, groups, rfl, hs, ht, hitems⟩ := h.exists_groups
    have hstarts : starts (s :: (groups.flatten ++ [t])) = s :: starts groups.flatten := by
      simp [starts, hs, ht]
    have hinside : groups.flatten <:+: s :: (groups.flatten ++ [t]) := ⟨[s], [t], rfl⟩
    have hbegins := begins_groups (fun item hitem _ => ih item hitem) hitems
    rw [hstarts, preorder]
    exact .cons ⟨_, List.infix_refl _, h⟩ (hbegins.imp fun _ _ h => h.mono hinside)
  | string pos value => exact begins_token h (by simp)
  | number pos literal kind => exact begins_token h (by simp)
  | symbol pos literal => exact begins_token h (by simp)
  | bare pos => exact begins_token h (by simp)

/-! ## Texts that are read to their end -/

variable {forms : List Form} {stack : List Frame}

/-- The tokens since the first open parenthesis and those that follow fall into groups, one for
every form that is read. -/
theorem exists_groups_readMany {fault? : Option LexFault} (h : Open lines us stack)
    (hread : readMany lines fault? stack ts = (forms, none)) :
    ∃ groups : List (List Token), us ++ ts = groups.flatten ∧
      List.Forall₂ (Spells lines) groups forms := by
  induction ts generalizing us stack forms with
  | nil =>
    obtain ⟨rfl, hend⟩ := Prod.mk.inj hread
    cases h with
    | nil => exact ⟨[], rfl, .nil⟩
    | cons => cases fault? <;> cases hend
  | cons t ts ih =>
    rw [readMany] at hread
    split at hread
    · cases hread
    next form hstep =>
      obtain ⟨rfl, hrest⟩ := Prod.mk.inj hread
      obtain ⟨groups, hgroups, hforms⟩ := ih .nil (Prod.ext rfl hrest)
      refine ⟨(us ++ [t]) :: groups, ?_, .cons (stepOpen_step h hstep) hforms⟩
      rw [List.flatten_cons, ← hgroups, List.nil_append, List.append_assoc, List.singleton_append]
    next stack' hstep =>
      rw [List.append_cons]
      exact ih (stepOpen_step h hstep) hread

variable {file : String} {source : List Char}

theorem occurs_readAll (h : readAll file source = (forms, none)) :
    List.Forall₂ (Occurs file source) (starts (lex source).tokens) (preorderAll forms) := by
  obtain ⟨groups, hgroups, hforms⟩ := exists_groups_readMany .nil h
  rw [List.nil_append] at hgroups
  have hbegins := begins_groups (fun _ _ _ => begins_preorder) hforms
  rwa [← hgroups] at hbegins

theorem before_of_lt {i j : Nat} (hlt : i < j) (hle : j ≤ source.length) :
    (Position.behind file (source.take i)).Before (.behind file (source.take j)) := by
  have htake : source.take j = source.take i ++ (source.drop i).take (j - i) := by
    rw [← List.take_add, Nat.add_sub_cancel' hlt.le]
  have hne : (source.drop i).take (j - i) ≠ [] := by
    rw [← List.length_pos_iff, List.length_take, List.length_drop]
    omega
  rw [htake]
  exact Position.behind_before file _ hne

/-- In pre-order the positions of the forms increase. -/
theorem before_readAll (h : readAll file source = (forms, none)) :
    ((preorderAll forms).map pos).Pairwise Position.Before := by
  have hpos : List.Forall₂ (· = ·)
      ((starts (lex source).tokens).map fun t => Position.behind file (source.take t.offset))
      ((preorderAll forms).map pos) := by
    rw [List.forall₂_map_left_iff, List.forall₂_map_right_iff]
    exact (occurs_readAll h).imp fun _ _ hocc => hocc.pos_eq.symm
  rw [List.forall₂_eq_eq_eq] at hpos
  rw [← hpos, List.pairwise_map]
  refine ((Token.sorted_lex source).filter _).imp_of_mem ?_
  intro t u _ hu hlt
  exact before_of_lt hlt (Token.offset_le_of_mem_lex u (List.mem_of_mem_filter hu))

end Formulary.Form
