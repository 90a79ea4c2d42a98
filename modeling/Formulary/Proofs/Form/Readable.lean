import Formulary.Proofs.Form.Balance

/-!
# The forms that are read

The reader makes a string form of a literal, a number or a symbol of a word, and a list of what
stands between parentheses. A step of the reader keeps this of every list that is open, and so
every form of a text is made in this way.
-/
namespace Formulary.Form

open Token (IsWord Lexeme)

inductive Readable : Form → Prop
  | string (pos : Position) (value : List Char) : Readable (.string pos value)
  | word (pos : Position) {text : List Char} (h : IsWord text) : Readable (ofWord pos text)
  | list (pos : Position) {items : List Form} (h : ∀ form ∈ items, Readable form) :
    Readable (.list pos items)

/-- The items of the open lists are readable. -/
def OpenReadable (stack : List Frame) : Prop := ∀ frame ∈ stack, ∀ form ∈ frame.items, Readable form

/-- What a step leaves is readable. -/
def StepReadable : Step → Prop
  | .done form => Readable form
  | .more stack => OpenReadable stack

variable {lines : LineIndex} {stack : List Frame}

theorem openReadable_nil : OpenReadable [] := by simp [OpenReadable]

theorem stepReadable_place {form : Form} (h : Readable form) (hstack : OpenReadable stack) :
    StepReadable (place form stack) := by
  cases stack with
  | nil => exact h
  | cons frame stack =>
    obtain ⟨hframe, hrest⟩ := List.forall_mem_cons.1 hstack
    exact List.forall_mem_cons.2 ⟨List.forall_mem_cons.2 ⟨h, hframe⟩, hrest⟩

theorem stepReadable_step {t : Token} {s : Step} (ht : Lexeme t.kind t.text)
    (hstack : OpenReadable stack) (h : step lines stack t = .ok s) : StepReadable s := by
  obtain ⟨kind, text, offset⟩ := t
  dsimp only at ht
  cases ht with
  | opening =>
    cases h
    exact List.forall_mem_cons.2 ⟨by simp, hstack⟩
  | closing =>
    cases stack with
    | nil => cases h
    | cons frame stack =>
      cases h
      obtain ⟨hframe, hrest⟩ := List.forall_mem_cons.1 hstack
      refine stepReadable_place (.list frame.pos ?_) hrest
      intro form hform
      exact hframe form (List.mem_reverse.1 hform)
  | string =>
    simp only [step] at h
    split at h
    · cases h
      exact stepReadable_place (.string _ _) hstack
    · cases h
  | word hw =>
    cases h
    exact stepReadable_place (.word _ hw) hstack

theorem readable_readOne {ts rest : List Token} {form : Form}
    (hts : ∀ t ∈ ts, Lexeme t.kind t.text) (hstack : OpenReadable stack)
    (h : readOne lines stack ts = (.read form, rest)) : Readable form := by
  induction ts generalizing stack with
  | nil => cases h
  | cons t ts ih =>
    obtain ⟨ht, hts⟩ := List.forall_mem_cons.1 hts
    rw [readOne] at h
    split at h
    · cases h
    next form' hstep =>
      cases h
      exact stepReadable_step ht hstack hstep
    next stack' hstep => exact ih hts (stepReadable_step ht hstack hstep) h

theorem readable_readMany {fault? : Option LexFault} {ts : List Token}
    (hts : ∀ t ∈ ts, Lexeme t.kind t.text) (hstack : OpenReadable stack) :
    ∀ form ∈ (readMany lines fault? stack ts).1, Readable form := by
  induction ts generalizing stack with
  | nil => simp [readMany]
  | cons t ts ih =>
    obtain ⟨ht, hts⟩ := List.forall_mem_cons.1 hts
    rw [readMany]
    split
    next => simp
    next form' hstep =>
      exact List.forall_mem_cons.2 ⟨stepReadable_step ht hstack hstep, ih hts openReadable_nil⟩
    next stack' hstep => exact ih hts (stepReadable_step ht hstack hstep)

theorem readable_readForm {file : String} {source : List Char} {form : Form} {reader : Reader}
    (h : (Reader.ofSource file source).readForm = (.ok (some form), reader)) : Readable form := by
  unfold Reader.readForm at h
  split at h
  next form' ts hread =>
    cases h
    exact readable_readOne lexeme_of_mem_lex openReadable_nil hread
  next => cases h
  next =>
    dsimp only at h
    split at h <;> cases h

theorem readable_readAll (file : String) (source : List Char) :
    ∀ form ∈ (readAll file source).1, Readable form :=
  readable_readMany lexeme_of_mem_lex openReadable_nil

end Formulary.Form
