import Formulary.Proofs.Form.Escape

/-!
# Tokens in context

What the lexer does with a text that starts with a given token and goes on in any way. A word
must be followed by a character that ends it; the other tokens end by themselves.
-/
namespace Formulary.Token

open Text (isBlank Stops stops_cons takeWhile_run dropWhile_run)

def Lexed.append (ts : List Token) (l : Lexed) : Lexed := { l with tokens := ts ++ l.tokens }

theorem Lexed.cons_eq_append (t : Token) (l : Lexed) : Lexed.cons t l = Lexed.append [t] l := rfl

theorem Lexed.append_append (ts us : List Token) (l : Lexed) :
    Lexed.append ts (Lexed.append us l) = Lexed.append (ts ++ us) l := by
  simp [Lexed.append]

theorem lexFrom_nil (offset : Nat) : lexFrom offset [] = ⟨[], none⟩ := by
  rw [lexFrom.eq_def]

theorem lexFrom_blank {c : Char} (hc : isBlank c = true) (offset : Nat) (cs : List Char) :
    lexFrom offset (c :: cs) = lexFrom (offset + 1) cs := by
  rw [lexFrom.eq_def]
  dsimp only
  rw [if_pos hc]

theorem lexFrom_opening (offset : Nat) (cs : List Char) :
    lexFrom offset ('(' :: cs) =
      Lexed.append [⟨.opening, ['('], offset⟩] (lexFrom (offset + 1) cs) := by
  have hblank : ¬ isBlank '(' = true := by decide
  rw [lexFrom.eq_def]
  dsimp only
  rw [if_neg hblank, if_neg (by decide), if_neg (fun h => absurd h.1 (by decide)), if_pos rfl,
    Lexed.cons_eq_append]

theorem lexFrom_closing (offset : Nat) (cs : List Char) :
    lexFrom offset (')' :: cs) =
      Lexed.append [⟨.closing, [')'], offset⟩] (lexFrom (offset + 1) cs) := by
  have hblank : ¬ isBlank ')' = true := by decide
  rw [lexFrom.eq_def]
  dsimp only
  rw [if_neg hblank, if_neg (by decide), if_neg (fun h => absurd h.1 (by decide)),
    if_neg (by decide), if_pos rfl, Lexed.cons_eq_append]

/-- A quoted string is one token, whatever it holds and whatever follows. -/
theorem lexFrom_quoteString (offset : Nat) (cs rest : List Char) :
    lexFrom offset (quoteString cs ++ rest) =
      Lexed.append [⟨.string, quoteString cs, offset⟩]
        (lexFrom (offset + (quoteString cs).length) rest) := by
  have hblank : ¬ isBlank '\x22' = true := by decide
  have hsplit : quoteString cs ++ rest =
      '\x22' :: (cs.flatMap escapeInString ++ '\x22' :: rest) := by
    simp [quoteString]
  have hlen : offset + (quoteString cs).length =
      offset + 1 + (cs.flatMap escapeInString ++ ['\x22']).length := by
    simp only [quoteString, List.length_cons, List.cons_append]
    omega
  rw [hsplit, lexFrom.eq_def]
  dsimp only
  rw [if_neg hblank, if_neg (by decide), if_neg (fun h => absurd h.1 (by decide)),
    if_neg (by decide), if_neg (by decide), if_pos rfl]
  split
  next s r h =>
    rw [afterQuote?_escaped, Option.some.injEq, Prod.mk.injEq] at h
    obtain ⟨rfl, rfl⟩ := h
    rw [hlen]
    rfl
  next h =>
    rw [afterQuote?_escaped] at h
    cases h

/-- A quoted string in front of any text is a token of its own, in which no control character
stands; resolving its escapes gives the string back, and so no two strings are quoted alike. -/
theorem lex_quoteString :
    (∀ cs rest : List Char,
      lex (quoteString cs ++ rest) =
          Lexed.cons ⟨.string, quoteString cs, 0⟩ (lexFrom (quoteString cs).length rest) ∧
        (∀ c ∈ quoteString cs, 0x20 ≤ c.toNat ∧ c.toNat ≠ 0x7F) ∧
        unescape (quoteString cs) = .ok cs) ∧
      Function.Injective quoteString := by
  refine ⟨?_, quoteString_injective⟩
  intro cs rest
  refine ⟨?_, ?_, unescape_quoteString cs⟩
  · have hlex := lexFrom_quoteString 0 cs rest
    rwa [Nat.zero_add] at hlex
  · intro c hc
    have hcontrol := not_isControl_quoteString cs c hc
    rw [IsControl] at hcontrol
    omega

/-- What can stand as a word: it has word characters only and does not open a comment. -/
structure IsWord (w : List Char) : Prop where
  ne_nil : w ≠ []
  isWordChar : ∀ c ∈ w, isWordChar c = true
  noComment : ¬ ['/', '*'] <+: w

theorem lexFrom_word {w rest : List Char} (hw : IsWord w) (hrest : Stops isWordChar rest)
    (offset : Nat) :
    lexFrom offset (w ++ rest) =
      Lexed.append [⟨.word, w, offset⟩] (lexFrom (offset + w.length) rest) := by
  obtain ⟨c, w, rfl⟩ := List.exists_cons_of_ne_nil hw.ne_nil
  have hword := hw.isWordChar c List.mem_cons_self
  have hc := hword
  have htail : ∀ d ∈ w, isWordChar d = true := fun d hd =>
    hw.isWordChar d (List.mem_cons_of_mem c hd)
  simp only [Token.isWordChar, Bool.not_eq_true', Bool.or_eq_false_iff, beq_eq_false_iff_ne] at hc
  obtain ⟨⟨⟨⟨hblank, hopen⟩, hclose⟩, hquote⟩, hsemi⟩ := hc
  have hcomment : ¬ (c = '/' ∧ (w ++ rest).head? = some '*') := by
    rintro ⟨rfl, hstar⟩
    cases w with
    | nil =>
      -- the star would have to come from the text behind the word, which a star does not end
      rw [List.nil_append] at hstar
      have := hrest '*' hstar
      exact absurd this (by decide)
    | cons d w =>
      rw [List.cons_append, List.head?_cons, Option.some.injEq] at hstar
      subst hstar
      exact hw.noComment ⟨w, rfl⟩
  have hlen : offset + (c :: w).length = offset + 1 + w.length := by
    rw [List.length_cons]
    omega
  rw [List.cons_append, lexFrom.eq_def]
  dsimp only
  rw [if_neg (by simp [hblank]), if_neg hsemi, if_neg hcomment, if_neg hopen, if_neg hclose,
    if_neg hquote, if_pos hword, takeWhile_run htail hrest, dropWhile_run htail hrest, hlen,
    Lexed.cons_eq_append]

end Formulary.Token
