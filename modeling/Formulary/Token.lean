import Formulary.Text.Basic

/-!
# Tokens

A source text is cut into parentheses, string literals and words. Blanks, comments from `;` to
the end of the line and comments between `/*` and the next `*/` stand between tokens; a comment
sign inside a word is part of the word.
-/
namespace Formulary

inductive TokenKind where
  | opening
  | closing
  | string
  | word
deriving DecidableEq, Repr

structure Token where
  kind : TokenKind
  /-- The token as written, quotes included. -/
  text : List Char
  /-- The number of characters before the token. -/
  offset : Nat
deriving DecidableEq, Repr

inductive LexFaultKind where
  | unterminatedString
  | unterminatedComment
  /-- A character that starts no token. -/
  | unexpectedCharacter (c : Char)
deriving DecidableEq, Repr

/-- What stops the lexer: text that is no token, and where it starts. -/
structure LexFault where
  kind : LexFaultKind
  offset : Nat
deriving DecidableEq, Repr

/-- The tokens of a text, up to the fault that ends them if there is one. -/
structure Lexed where
  tokens : List Token
  fault? : Option LexFault
deriving DecidableEq, Repr

namespace Token

open Text (isBlank)

def isWordChar (c : Char) : Bool :=
  !(isBlank c || c == '(' || c == ')' || c == '\x22' || c == ';')

/-- What follows the end of a block comment, and how many characters lie before that. -/
def afterComment? : List Char → Option (Nat × List Char)
  | [] => none
  | '*' :: '/' :: rest => some (2, rest)
  | _ :: rest => (afterComment? rest).map fun (n, r) => (n + 1, r)

/-- The rest of a string literal after its opening quote, closing quote included, and what
follows it. A backslash takes the next character along, whatever it is. -/
def afterQuote? : List Char → Option (List Char × List Char)
  | [] => none
  | '\x22' :: rest => some (['\x22'], rest)
  | ['\\'] => none
  | '\\' :: c :: rest => (afterQuote? rest).map fun (s, r) => ('\\' :: c :: s, r)
  | c :: rest => (afterQuote? rest).map fun (s, r) => (c :: s, r)

theorem length_of_afterComment? {cs : List Char} {n : Nat} {r : List Char}
    (h : afterComment? cs = some (n, r)) : n + r.length = cs.length := by
  fun_induction afterComment? cs generalizing n r with
  | case1 => simp at h
  | case2 rest =>
    simp only [Option.some.injEq, Prod.mk.injEq] at h
    obtain ⟨rfl, rfl⟩ := h
    simp only [List.length_cons]
    omega
  | case3 c rest _ ih =>
    obtain ⟨⟨m, s⟩, hm, he⟩ := Option.map_eq_some_iff.1 h
    simp only [Prod.mk.injEq] at he
    obtain ⟨rfl, rfl⟩ := he
    have := ih hm
    simp only [List.length_cons]
    omega

theorem append_of_afterQuote? {cs s r : List Char} (h : afterQuote? cs = some (s, r)) :
    s ++ r = cs := by
  fun_induction afterQuote? cs generalizing s r with
  | case1 => simp at h
  | case2 rest =>
    simp only [Option.some.injEq, Prod.mk.injEq] at h
    obtain ⟨rfl, rfl⟩ := h
    rfl
  | case3 => simp at h
  | case4 c rest ih =>
    obtain ⟨⟨m, t⟩, hm, he⟩ := Option.map_eq_some_iff.1 h
    simp only [Prod.mk.injEq] at he
    obtain ⟨rfl, rfl⟩ := he
    simp [ih hm]
  | case5 c rest _ _ _ ih =>
    obtain ⟨⟨m, t⟩, hm, he⟩ := Option.map_eq_some_iff.1 h
    simp only [Prod.mk.injEq] at he
    obtain ⟨rfl, rfl⟩ := he
    simp [ih hm]

def Lexed.cons (t : Token) (l : Lexed) : Lexed := { l with tokens := t :: l.tokens }

/-- The tokens of a text that starts at `offset`. -/
def lexFrom (offset : Nat) : List Char → Lexed
  | [] => ⟨[], none⟩
  | c :: cs =>
    if isBlank c then lexFrom (offset + 1) cs
    else if c = ';' then
      lexFrom (offset + 1 + (cs.takeWhile (· != '\n')).length) (cs.dropWhile (· != '\n'))
    else if c = '/' ∧ cs.head? = some '*' then
      match h : afterComment? cs.tail with
      | some (n, rest) => lexFrom (offset + 2 + n) rest
      | none => ⟨[], some ⟨.unterminatedComment, offset⟩⟩
    else if c = '(' then Lexed.cons ⟨.opening, [c], offset⟩ (lexFrom (offset + 1) cs)
    else if c = ')' then Lexed.cons ⟨.closing, [c], offset⟩ (lexFrom (offset + 1) cs)
    else if c = '\x22' then
      match h : afterQuote? cs with
      | some (s, rest) =>
        Lexed.cons ⟨.string, c :: s, offset⟩ (lexFrom (offset + 1 + s.length) rest)
      | none => ⟨[], some ⟨.unterminatedString, offset⟩⟩
    else if isWordChar c then
      Lexed.cons ⟨.word, c :: cs.takeWhile isWordChar, offset⟩
        (lexFrom (offset + 1 + (cs.takeWhile isWordChar).length) (cs.dropWhile isWordChar))
    else ⟨[], some ⟨.unexpectedCharacter c, offset⟩⟩
termination_by cs => cs.length
decreasing_by
  all_goals simp only [List.length_cons]
  · omega
  · have := (List.dropWhile_sublist (· != '\n') (l := cs)).length_le
    omega
  · have := length_of_afterComment? h
    simp only [List.length_tail] at this
    omega
  · omega
  · omega
  · have := congrArg List.length (append_of_afterQuote? h)
    simp only [List.length_append] at this
    omega
  · have := (List.dropWhile_sublist isWordChar (l := cs)).length_le
    omega

end Token

def lex (source : List Char) : Lexed := Token.lexFrom 0 source

end Formulary
