import Formulary.Form.Reader
import Formulary.Proofs.Outcome
import Formulary.Proofs.Position
import Formulary.Proofs.Token.Concatenation

/-!
# Where forms stand among the tokens

Every form of a text, at any depth, is spelled by tokens that follow each other, and it has the
position of the first of them. A step of the reader keeps track of the tokens that spell the items
of the lists that are open, and so the tokens of every form are known when it is complete.
-/
namespace Formulary.Form

/-- The tokens spell the form: one token an atom, and a list its items between parentheses. The
form has the position of the first token. -/
inductive Spells (lines : LineIndex) : List Token → Form → Prop
  | string {t : Token} {value : List Char} (ht : t.kind = .string)
      (hvalue : unescape t.text = .ok value) :
      Spells lines [t] (.string (lines.position t.offset) value)
  | word {t : Token} (ht : t.kind = .word) :
      Spells lines [t] (ofWord (lines.position t.offset) t.text)
  | list {s t : Token} {groups : List (List Token)} {items : List Form} (hs : s.kind = .opening)
      (ht : t.kind = .closing) (hitems : List.Forall₂ (Spells lines) groups items) :
      Spells lines (s :: (groups.flatten ++ [t])) (.list (lines.position s.offset) items)

/-- The tokens since the first open parenthesis: behind that of each open list stand those that
spell its items so far. -/
inductive Open (lines : LineIndex) : List Token → List Frame → Prop
  | nil : Open lines [] []
  | cons {us : List Token} {s : Token} {groups : List (List Token)} {items : List Form}
      {stack : List Frame} (h : Open lines us stack) (hs : s.kind = .opening)
      (hitems : List.Forall₂ (Spells lines) groups items.reverse) :
      Open lines (us ++ s :: groups.flatten) (⟨lines.position s.offset, items⟩ :: stack)

/-- The same after a step, which may have completed a form. -/
def StepOpen (lines : LineIndex) (ts : List Token) : Step → Prop
  | .done form => Spells lines ts form
  | .more stack => Open lines ts stack

variable {lines : LineIndex} {us : List Token} {stack : List Frame}

theorem pos_ofWord (pos : Position) (text : List Char) : (ofWord pos text).pos = pos := by
  unfold ofWord
  split <;> rfl

theorem ofWord_ne_list (pos : Position) (text : List Char) {pos' : Position}
    {items : List Form} : ofWord pos text ≠ .list pos' items := by
  unfold ofWord
  split <;> exact nofun

theorem Spells.exists_first {ts : List Token} {form : Form} (h : Spells lines ts form) :
    ∃ t rest, ts = t :: rest ∧ form.pos = lines.position t.offset := by
  cases h with
  | string => exact ⟨_, [], rfl, rfl⟩
  | word => exact ⟨_, [], rfl, pos_ofWord _ _⟩
  | list => exact ⟨_, _, rfl, rfl⟩

theorem Spells.exists_groups {ts : List Token} {pos : Position} {items : List Form}
    (h : Spells lines ts (.list pos items)) :
    ∃ s t groups, ts = s :: (groups.flatten ++ [t]) ∧ s.kind = .opening ∧ t.kind = .closing ∧
      List.Forall₂ (Spells lines) groups items := by
  generalize hform : Form.list pos items = form at h
  cases h with
  | string => cases hform
  | word => exact absurd hform.symm (ofWord_ne_list _ _)
  | list hs ht hitems =>
    cases hform
    exact ⟨_, _, _, rfl, hs, ht, hitems⟩

theorem Spells.exists_token {ts : List Token} {form : Form} (h : Spells lines ts form)
    (hform : ∀ pos items, form ≠ .list pos items) : ∃ t, ts = [t] ∧ t.kind ≠ .closing := by
  cases h with
  | string ht => exact ⟨_, rfl, by simp [ht]⟩
  | word ht => exact ⟨_, rfl, by simp [ht]⟩
  | list => exact absurd rfl (hform _ _)

/-! ## Reading -/

theorem Open.place {vs : List Token} {form : Form} (h : Open lines us stack)
    (hform : Spells lines vs form) : StepOpen lines (us ++ vs) (place form stack) := by
  cases h with
  | nil => exact hform
  | @cons us s groups items stack h hs hitems =>
    have hmore : List.Forall₂ (Spells lines) (groups ++ [vs]) (form :: items).reverse := by
      rw [List.reverse_cons]
      exact List.rel_append hitems (.cons hform .nil)
    have htokens : us ++ s :: groups.flatten ++ vs = us ++ s :: (groups ++ [vs]).flatten := by
      simp
    rw [htokens]
    exact .cons h hs hmore

theorem stepOpen_step {t : Token} {s : Step} (h : Open lines us stack)
    (hstep : step lines stack t = .ok s) : StepOpen lines (us ++ [t]) s := by
  unfold step at hstep
  split at hstep
  next hkind =>
    cases hstep
    have hitems : List.Forall₂ (Spells lines) [] (List.reverse []) := .nil
    exact .cons h hkind hitems
  next => cases hstep
  next frame stack hkind =>
    cases hstep
    cases h with
    | @cons us s groups items _ h hs hitems =>
      rw [List.append_assoc]
      exact h.place (.list hs hkind hitems)
  next hkind =>
    split at hstep
    next value hvalue =>
      cases hstep
      exact h.place (.string hkind hvalue)
    next => cases hstep
  next hkind =>
    cases hstep
    exact h.place (.word hkind)

theorem spells_readOne {ts rest : List Token} {form : Form} (h : Open lines us stack)
    (hread : readOne lines stack ts = (.read form, rest)) :
    ∃ vs, ts = vs ++ rest ∧ Spells lines (us ++ vs) form := by
  induction ts generalizing us stack with
  | nil => cases hread
  | cons t ts ih =>
    rw [readOne] at hread
    split at hread
    · cases hread
    next form' hstep =>
      cases hread
      exact ⟨[t], rfl, stepOpen_step h hstep⟩
    next stack' hstep =>
      obtain ⟨vs, rfl, hform⟩ := ih (stepOpen_step h hstep) hread
      rw [List.append_assoc] at hform
      exact ⟨t :: vs, rfl, hform⟩

theorem spells_readMany {fault? : Option LexFault} {ts : List Token} (h : Open lines us stack) :
    ∀ form ∈ (readMany lines fault? stack ts).1, ∃ vs, vs <:+: us ++ ts ∧ Spells lines vs form := by
  induction ts generalizing us stack with
  | nil => simp [readMany]
  | cons t ts ih =>
    rw [List.append_cons us t ts, readMany]
    split
    next => simp
    next form' hstep =>
      have hfirst : us ++ [t] <:+: us ++ [t] ++ ts := (List.prefix_append _ _).isInfix
      refine List.forall_mem_cons.2 ⟨⟨us ++ [t], hfirst, stepOpen_step h hstep⟩, ?_⟩
      intro form hform
      obtain ⟨vs, hvs, hspells⟩ := ih .nil form hform
      exact ⟨vs, hvs.trans (List.suffix_append _ _).isInfix, hspells⟩
    next stack' hstep => exact ih (stepOpen_step h hstep)

/-! ## The forms of a text -/

/-- The form stands in the text, and the token is the first of those that spell it. -/
def Occurs (file : String) (source : List Char) (t : Token) (form : Form) : Prop :=
  ∃ rest, t :: rest <:+: (lex source).tokens ∧ Spells (.ofSource file source) (t :: rest) form

variable {file : String} {source : List Char} {form : Form}

theorem exists_occurs {vs : List Token} (hvs : vs <:+: (lex source).tokens)
    (h : Spells (.ofSource file source) vs form) : ∃ t, Occurs file source t form := by
  obtain ⟨t, rest, rfl, -⟩ := h.exists_first
  exact ⟨t, rest, hvs, h⟩

theorem exists_occurs_readAll (h : form ∈ (readAll file source).1) :
    ∃ t, Occurs file source t form := by
  obtain ⟨vs, hvs, hspells⟩ := spells_readMany .nil form h
  exact exists_occurs hvs hspells

theorem exists_occurs_readForm {reader : Reader}
    (h : (Reader.ofSource file source).readForm = (.ok (some form), reader)) :
    ∃ t, Occurs file source t form := by
  unfold Reader.readForm at h
  split at h
  next form' ts hread =>
    cases h
    obtain ⟨vs, hvs, hspells⟩ := spells_readOne .nil hread
    refine exists_occurs ?_ hspells
    exact ⟨[], ts, hvs.symm⟩
  next => cases h
  next =>
    dsimp only at h
    split at h <;> cases h

/-- The items of a list stand in the text where the list does. -/
theorem Occurs.exists_item {t : Token} {pos : Position} {items : List Form}
    (h : Occurs file source t (.list pos items)) (hform : form ∈ items) :
    ∃ s, Occurs file source s form := by
  obtain ⟨rest, hinfix, hspells⟩ := h
  obtain ⟨s, u, groups, htokens, -, -, hitems⟩ := hspells.exists_groups
  obtain ⟨group, hgroup, hspells⟩ := exists_mem_of_forall₂ hitems form hform
  have hinside : group <:+: t :: rest := by
    rw [htokens]
    exact (List.infix_of_mem_flatten hgroup).trans ⟨[s], [u], rfl⟩
  exact exists_occurs (hinside.trans hinfix) hspells

theorem Occurs.mem {t : Token} (h : Occurs file source t form) : t ∈ (lex source).tokens := by
  obtain ⟨rest, hinfix, -⟩ := h
  exact hinfix.subset List.mem_cons_self

/-- The position of a form is that of its first character. -/
theorem Occurs.pos_eq {t : Token} (h : Occurs file source t form) :
    form.pos = .behind file (source.take t.offset) := by
  have hle := Token.offset_le_of_mem_lex t h.mem
  obtain ⟨rest, -, hspells⟩ := h
  obtain ⟨t', rest', heq, hpos⟩ := hspells.exists_first
  cases heq
  rw [hpos, LineIndex.position_ofSource file hle]

end Formulary.Form
