import Formulary.Form.Reader
import Formulary.Token

/-!
# Tokens that make a form

Some tokens make a form if reading them puts that form into the innermost open list and leaves
everything else as it was, whatever lists are open and whatever tokens follow.
-/
namespace Formulary.Form

/-- Goes on reading after a step. -/
def resume (lines : LineIndex) : Step → List Token → Outcome × List Token
  | .done form, ts => (.read form, ts)
  | .more stack, ts => readOne lines stack ts

theorem readOne_cons {lines : LineIndex} {stack : List Frame} {t : Token} {s : Step}
    (h : step lines stack t = .ok s) (ts : List Token) :
    readOne lines stack (t :: ts) = resume lines s ts := by
  rw [readOne, h]
  cases s <;> rfl

/-- The tokens make the form. -/
def Reads (lines : LineIndex) (ts : List Token) (form : Form) : Prop :=
  ∀ stack rest, readOne lines stack (ts ++ rest) = resume lines (place form stack) rest

/-- The tokens make the items, which go into a list that is open. -/
def ReadsItems (lines : LineIndex) (ts : List Token) (items : List Form) : Prop :=
  ∀ frame stack rest, readOne lines (frame :: stack) (ts ++ rest) =
    readOne lines ({ frame with items := items.reverse ++ frame.items } :: stack) rest

variable {lines : LineIndex}

theorem reads_string {text value : List Char} (h : unescape text = .ok value) (offset : Nat) :
    Reads lines [⟨.string, text, offset⟩] (.string (lines.position offset) value) := by
  intro stack rest
  refine readOne_cons ?_ rest
  simp only [step, h]

theorem reads_word (text : List Char) (offset : Nat) :
    Reads lines [⟨.word, text, offset⟩] (ofWord (lines.position offset) text) :=
  fun _ rest => readOne_cons rfl rest

theorem readsItems_nil : ReadsItems lines [] [] := fun _ _ _ => rfl

theorem readsItems_cons {ts us : List Token} {form : Form} {forms : List Form}
    (h : Reads lines ts form) (hs : ReadsItems lines us forms) :
    ReadsItems lines (ts ++ us) (form :: forms) := by
  intro frame stack rest
  rw [List.append_assoc, h, place, resume, hs]
  simp

theorem reads_list {ts : List Token} {forms : List Form} (h : ReadsItems lines ts forms)
    (opening closing : List Char) (i j : Nat) :
    Reads lines (⟨.opening, opening, i⟩ :: ts ++ [⟨.closing, closing, j⟩])
      (.list (lines.position i) forms) := by
  intro stack rest
  have hopen : step lines stack ⟨.opening, opening, i⟩ =
      .ok (.more (⟨lines.position i, []⟩ :: stack)) := rfl
  have hclose : step lines (⟨lines.position i, forms.reverse ++ []⟩ :: stack)
      ⟨.closing, closing, j⟩ = .ok (place (.list (lines.position i) forms) stack) := by
    simp only [step, List.append_nil, List.reverse_reverse]
  rw [List.append_assoc, List.cons_append, readOne_cons hopen, resume, h]
  exact readOne_cons hclose rest

/-- A text whose tokens make one form is read as that form, with nothing left over. -/
theorem readForm_of_reads {file : String} {source : List Char} {ts : List Token} {form : Form}
    (hlex : lex source = ⟨ts, none⟩) (h : Reads (.ofSource file source) ts form) :
    (Reader.ofSource file source).readForm =
      (.ok (some form), ⟨.ofSource file source, [], [], none⟩) := by
  have hone : readOne (.ofSource file source) [] ts = (.read form, []) := by
    have := h [] []
    rwa [List.append_nil] at this
  simp only [Reader.readForm, Reader.ofSource, hlex, List.nil_append, hone]

end Formulary.Form
