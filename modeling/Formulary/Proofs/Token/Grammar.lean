import Formulary.Form.Reader
import Formulary.Proofs.Token
import Mathlib.Data.List.TakeWhile

/-!
# The lexical grammar

A text is cut into tokens with gaps around them. The grammar says what a gap and a token are, and
what must part a word from what follows; the lexer finds exactly the cuts that the grammar allows.
A text that has no cut is cut up to a string literal or a block comment that never ends.
-/
namespace Formulary.Token

open Text (isBlank Stops stops_nil stops_cons stops_dropWhile takeWhile_run dropWhile_run)

/-- The inside of a string literal: pairs of a backslash with any character, and characters other
than quote and backslash. -/
inductive Quoted : List Char → Prop
  | nil : Quoted []
  | escape {cs : List Char} (c : Char) : Quoted cs → Quoted ('\\' :: c :: cs)
  | plain {c : Char} {cs : List Char} : c ≠ '\\' → c ≠ '\x22' → Quoted cs → Quoted (c :: cs)

/-- The inside of a block comment: the star and slash behind it are the first ones. -/
def IsCommentBody (body : List Char) : Prop := ¬ ['*', '/'] <:+: body ++ ['*']

/-- What may stand around tokens, in front of the text `next`. A line comment goes on to the next
newline or to the end of the text. -/
inductive Gap (next : List Char) : List Char → Prop
  | nil : Gap next []
  | blank {c : Char} {gap : List Char} : isBlank c = true → Gap next gap → Gap next (c :: gap)
  | lineComment {body gap : List Char} : '\n' ∉ body → Stops (· != '\n') (gap ++ next) →
      Gap next gap → Gap next (';' :: (body ++ gap))
  | blockComment {body gap : List Char} : IsCommentBody body → Gap next gap →
      Gap next ('/' :: '*' :: (body ++ '*' :: '/' :: gap))

inductive Lexeme : TokenKind → List Char → Prop
  | opening : Lexeme .opening ['(']
  | closing : Lexeme .closing [')']
  | string {body : List Char} : Quoted body → Lexeme .string ('\x22' :: (body ++ ['\x22']))
  | word {w : List Char} : IsWord w → Lexeme .word w

/-- The text that starts at the given offset, behind a token of the kind `before?` if there is
one, and in front of the text `next`, is made of the tokens with gaps around them. Behind a word
no gap starts with a block comment, and two words have a gap between them. -/
inductive Cut (next : List Char) : Option TokenKind → Nat → List Token → List Char → Prop
  | gap {before? : Option TokenKind} {offset : Nat} {gap : List Char} : Gap next gap →
      (before? = some .word → ¬ ['/', '*'] <+: gap ++ next) → Cut next before? offset [] gap
  | token {before? : Option TokenKind} {offset : Nat} {gap rest : List Char} {t : Token}
      {ts : List Token} : Gap (t.text ++ (rest ++ next)) gap →
      (before? = some .word → ¬ ['/', '*'] <+: gap ∧ (t.kind = .word → gap ≠ [])) →
      Lexeme t.kind t.text → t.offset = offset + gap.length →
      Cut next (some t.kind) (t.offset + t.text.length) ts rest →
      Cut next before? offset (t :: ts) (gap ++ (t.text ++ rest))

/-- A text that starts with a literal or comment that never ends. -/
inductive Unterminated : LexFaultKind → List Char → Prop
  | string {cs : List Char} : (∀ body rest, Quoted body → cs ≠ body ++ '\x22' :: rest) →
      Unterminated .unterminatedString ('\x22' :: cs)
  | comment {cs : List Char} : ¬ ['*', '/'] <:+: cs →
      Unterminated .unterminatedComment ('/' :: '*' :: cs)

/-- The lexer stops in front of the text: at its end, or at a fault that stands at the offset. -/
def Halts (offset : Nat) (text : List Char) : Option LexFault → Prop
  | none => text = []
  | some fault => fault.offset = offset ∧ Unterminated fault.kind text

/-! ## Literals and block comments -/

theorem afterQuote?_quoted {body : List Char} (h : Quoted body) (rest : List Char) :
    afterQuote? (body ++ '\x22' :: rest) = some (body ++ ['\x22'], rest) := by
  induction h with
  | nil => rw [List.nil_append, afterQuote?]; rfl
  | escape c _ ih => rw [List.cons_append, List.cons_append, afterQuote?_escape, ih]; rfl
  | plain hb hq _ ih => rw [List.cons_append, afterQuote?_plain hb hq, ih]; rfl

theorem quoted_of_afterQuote? {cs s rest : List Char} (h : afterQuote? cs = some (s, rest)) :
    ∃ body, Quoted body ∧ s = body ++ ['\x22'] ∧ cs = body ++ '\x22' :: rest := by
  fun_induction afterQuote? cs generalizing s rest with
  | case1 => cases h
  | case2 rest' =>
    obtain ⟨rfl, rfl⟩ := Prod.mk.inj (Option.some.inj h)
    exact ⟨[], .nil, rfl, rfl⟩
  | case3 => cases h
  | case4 c cs ih =>
    obtain ⟨⟨s', rest'⟩, hs, he⟩ := Option.map_eq_some_iff.1 h
    obtain ⟨rfl, rfl⟩ := Prod.mk.inj he
    obtain ⟨body, hbody, rfl, rfl⟩ := ih hs
    exact ⟨_, .escape c hbody, rfl, rfl⟩
  | case5 c cs hq hlast hb ih =>
    obtain ⟨⟨s', rest'⟩, hs, he⟩ := Option.map_eq_some_iff.1 h
    obtain ⟨rfl, rfl⟩ := Prod.mk.inj he
    obtain ⟨body, hbody, rfl, rfl⟩ := ih hs
    have hc : c ≠ '\\' := by
      rintro rfl
      cases body with
      | nil => exact hb '\x22' rest' rfl rfl
      | cons d body => exact hb d _ rfl rfl
    exact ⟨_, .plain hc hq hbody, rfl, rfl⟩

theorem afterQuote?_eq_none_iff {cs : List Char} :
    afterQuote? cs = none ↔ ∀ body rest, Quoted body → cs ≠ body ++ '\x22' :: rest := by
  constructor
  · rintro h body rest hbody rfl
    rw [afterQuote?_quoted hbody] at h
    cases h
  · intro h
    cases he : afterQuote? cs with
    | none => rfl
    | some p =>
      obtain ⟨s, rest⟩ := p
      obtain ⟨body, hbody, -, rfl⟩ := quoted_of_afterQuote? he
      exact absurd rfl (h body rest hbody)

theorem afterComment?_cons {c : Char} {cs : List Char} (h : ¬ ['*', '/'] <+: c :: cs) :
    afterComment? (c :: cs) = (afterComment? cs).map fun (n, r) => (n + 1, r) := by
  rw [afterComment?]
  rintro rest rfl rfl
  exact h ⟨rest, rfl⟩

/-- Whether a comment ends within its body is seen without what follows the star behind it. -/
theorem end_prefix_iff {c : Char} {body rest : List Char} :
    ['*', '/'] <+: c :: (body ++ '*' :: rest) ↔ ['*', '/'] <+: c :: (body ++ ['*']) := by
  cases body with
  | nil => simp [List.cons_prefix_cons]
  | cons d body => simp [List.cons_prefix_cons]

theorem isCommentBody_cons {c : Char} {body : List Char} : IsCommentBody (c :: body) ↔
    ¬ ['*', '/'] <+: c :: (body ++ ['*']) ∧ IsCommentBody body := by
  rw [IsCommentBody, List.cons_append, List.infix_cons_iff, not_or, IsCommentBody]

theorem afterComment?_body {body : List Char} (h : IsCommentBody body) (rest : List Char) :
    afterComment? (body ++ '*' :: '/' :: rest) = some (body.length + 2, rest) := by
  induction body with
  | nil => rw [List.nil_append, afterComment?]; rfl
  | cons c body ih =>
    obtain ⟨hhead, htail⟩ := isCommentBody_cons.1 h
    rw [List.cons_append, afterComment?_cons fun hpre => hhead (end_prefix_iff.1 hpre), ih htail]
    simp only [Option.map_some, List.length_cons]

theorem body_of_afterComment? {cs rest : List Char} {n : Nat}
    (h : afterComment? cs = some (n, rest)) :
    ∃ body, IsCommentBody body ∧ n = body.length + 2 ∧ cs = body ++ '*' :: '/' :: rest := by
  fun_induction afterComment? cs generalizing n rest with
  | case1 => cases h
  | case2 rest' =>
    obtain ⟨rfl, rfl⟩ := Prod.mk.inj (Option.some.inj h)
    refine ⟨[], ?_, rfl, rfl⟩
    intro hin
    have := hin.length_le
    simp at this
  | case3 c cs hend ih =>
    obtain ⟨⟨n', rest'⟩, hn, he⟩ := Option.map_eq_some_iff.1 h
    obtain ⟨rfl, rfl⟩ := Prod.mk.inj he
    obtain ⟨body, hbody, rfl, rfl⟩ := ih hn
    refine ⟨c :: body, isCommentBody_cons.2 ⟨?_, hbody⟩, by rw [List.length_cons], rfl⟩
    intro hpre
    have hend' : ['*', '/'] <+: c :: (body ++ '*' :: '/' :: rest') := end_prefix_iff.2 hpre
    obtain ⟨t, ht⟩ := hend'
    simp only [List.cons_append, List.nil_append, List.cons.injEq] at ht
    exact hend t ht.1.symm ht.2.symm

theorem afterComment?_eq_none_iff {cs : List Char} :
    afterComment? cs = none ↔ ¬ ['*', '/'] <:+: cs := by
  fun_induction afterComment? cs with
  | case1 => simp
  | case2 rest => simp only [reduceCtorEq, false_iff, not_not]; exact ⟨[], rest, rfl⟩
  | case3 c cs hend ih =>
    rw [Option.map_eq_none_iff, ih, List.infix_cons_iff, not_or]
    refine ⟨fun h => ⟨?_, h⟩, fun h => h.2⟩
    rintro ⟨t, ht⟩
    simp only [List.cons_append, List.nil_append, List.cons.injEq] at ht
    exact hend t ht.1.symm ht.2.symm

/-! ## The lexer on a cut text -/

theorem lexFrom_lineComment {body rest : List Char} (hbody : '\n' ∉ body)
    (hrest : Stops (· != '\n') rest) (offset : Nat) :
    lexFrom offset (';' :: (body ++ rest)) = lexFrom (offset + (1 + body.length)) rest := by
  have hblank : ¬ isBlank ';' = true := by decide
  have hrun : ∀ c ∈ body, (c != '\n') = true := by
    intro c hc
    rw [bne_iff_ne]
    rintro rfl
    exact hbody hc
  rw [lexFrom.eq_def]
  dsimp only
  rw [if_neg hblank, if_pos rfl, takeWhile_run hrun hrest, dropWhile_run hrun hrest,
    Nat.add_assoc]

theorem lexFrom_blockComment {body : List Char} (hbody : IsCommentBody body) (rest : List Char)
    (offset : Nat) : lexFrom offset ('/' :: '*' :: (body ++ '*' :: '/' :: rest)) =
      lexFrom (offset + (2 + (body.length + 2))) rest := by
  have hblank : ¬ isBlank '/' = true := by decide
  rw [lexFrom.eq_def]
  dsimp only
  rw [if_neg hblank, if_neg (by decide), if_pos ⟨rfl, rfl⟩]
  split
  next n r h =>
    rw [List.tail_cons, afterComment?_body hbody, Option.some.injEq, Prod.mk.injEq] at h
    obtain ⟨rfl, rfl⟩ := h
    rw [Nat.add_assoc]
  next h =>
    rw [List.tail_cons, afterComment?_body hbody] at h
    cases h

theorem lexFrom_literal {body : List Char} (hbody : Quoted body) (rest : List Char)
    (offset : Nat) : lexFrom offset ('\x22' :: (body ++ '\x22' :: rest)) =
      Lexed.append [⟨.string, '\x22' :: (body ++ ['\x22']), offset⟩]
        (lexFrom (offset + ('\x22' :: (body ++ ['\x22'])).length) rest) := by
  have hblank : ¬ isBlank '\x22' = true := by decide
  rw [lexFrom.eq_def]
  dsimp only
  rw [if_neg hblank, if_neg (by decide), if_neg (fun h => absurd h.1 (by decide)),
    if_neg (by decide), if_neg (by decide), if_pos rfl]
  split
  next s r h =>
    rw [afterQuote?_quoted hbody, Option.some.injEq, Prod.mk.injEq] at h
    obtain ⟨rfl, rfl⟩ := h
    rw [Lexed.cons_eq_append, List.length_cons, Nat.add_assoc, Nat.add_comm 1]
  next h =>
    rw [afterQuote?_quoted hbody] at h
    cases h

theorem lexFrom_unterminated {kind : LexFaultKind} {cs : List Char} (h : Unterminated kind cs)
    (offset : Nat) : lexFrom offset cs = ⟨[], some ⟨kind, offset⟩⟩ := by
  have hquote : ¬ isBlank '\x22' = true := by decide
  have hslash : ¬ isBlank '/' = true := by decide
  cases h with
  | string hcs =>
    rw [lexFrom.eq_def]
    dsimp only
    rw [if_neg hquote, if_neg (by decide), if_neg (fun h => absurd h.1 (by decide)),
      if_neg (by decide), if_neg (by decide), if_pos rfl]
    split
    next s r h =>
      rw [afterQuote?_eq_none_iff.2 hcs] at h
      cases h
    next => rfl
  | comment hcs =>
    rw [lexFrom.eq_def]
    dsimp only
    rw [if_neg hslash, if_neg (by decide), if_pos ⟨rfl, rfl⟩]
    split
    next n r h =>
      rw [List.tail_cons, afterComment?_eq_none_iff.2 hcs] at h
      cases h
    next => rfl

theorem lexFrom_halts {text : List Char} {fault? : Option LexFault} {offset : Nat}
    (h : Halts offset text fault?) : lexFrom offset text = ⟨[], fault?⟩ := by
  cases fault? with
  | none =>
    obtain rfl : text = [] := h
    exact lexFrom_nil offset
  | some fault =>
    obtain ⟨rfl, hkind⟩ := h
    exact lexFrom_unterminated hkind fault.offset

theorem lexFrom_gap {next gap : List Char} (h : Gap next gap) (offset : Nat) :
    lexFrom offset (gap ++ next) = lexFrom (offset + gap.length) next := by
  induction h generalizing offset with
  | nil => rfl
  | blank hc _ ih =>
    rw [List.cons_append, lexFrom_blank hc, ih, List.length_cons]
    congr 1
    omega
  | @lineComment body gap hbody hstop _ ih =>
    rw [List.cons_append, List.append_assoc, lexFrom_lineComment hbody hstop, ih]
    simp only [List.length_cons, List.length_append]
    congr 1
    omega
  | @blockComment body gap hbody _ ih =>
    simp only [List.cons_append, List.append_assoc]
    rw [lexFrom_blockComment hbody, ih]
    simp only [List.length_cons, List.length_append]
    congr 1
    omega

theorem lexFrom_lexeme {t : Token} (h : Lexeme t.kind t.text) {rest : List Char}
    (hrest : t.kind = .word → Stops isWordChar rest) :
    lexFrom t.offset (t.text ++ rest) =
      Lexed.append [t] (lexFrom (t.offset + t.text.length) rest) := by
  obtain ⟨kind, text, offset⟩ := t
  dsimp only at h hrest ⊢
  cases h with
  | opening => exact lexFrom_opening offset rest
  | closing => exact lexFrom_closing offset rest
  | @string body hbody =>
    rw [List.cons_append, List.append_assoc]
    exact lexFrom_literal hbody rest offset
  | word hw => exact lexFrom_word hw (hrest rfl) offset

/-! ## What follows a word -/

theorem stops_gap {next gap : List Char} (h : Gap next gap) (hne : gap ≠ [])
    (hcomment : ¬ ['/', '*'] <+: gap) (rest : List Char) : Stops isWordChar (gap ++ rest) := by
  cases h with
  | nil => exact absurd rfl hne
  | blank hc _ => simp [isWordChar, hc]
  | lineComment _ _ _ => exact stops_cons.2 (by decide)
  | blockComment _ _ => exact absurd ⟨_, rfl⟩ hcomment

theorem stops_halts {text : List Char} {fault? : Option LexFault} {offset : Nat}
    (h : Halts offset text fault?) (hcomment : ¬ ['/', '*'] <+: text) :
    Stops isWordChar text := by
  cases fault? with
  | none =>
    obtain rfl : text = [] := h
    exact stops_nil
  | some fault =>
    obtain ⟨kind, offset⟩ := fault
    cases h.2 with
    | string _ => exact stops_cons.2 (by decide)
    | comment _ => exact absurd ⟨_, rfl⟩ hcomment

theorem stops_lexeme {kind : TokenKind} {text : List Char} (h : Lexeme kind text)
    (hkind : kind ≠ .word) (rest : List Char) : Stops isWordChar (text ++ rest) := by
  cases h with
  | opening => exact stops_cons.2 (by decide)
  | closing => exact stops_cons.2 (by decide)
  | string _ => exact stops_cons.2 (by decide)
  | word _ => exact absurd rfl hkind

theorem Cut.stops {next text : List Char} {offset n : Nat} {ts : List Token}
    {fault? : Option LexFault} (h : Cut next (some .word) offset ts text)
    (hnext : Halts n next fault?) : Stops isWordChar (text ++ next) := by
  cases h with
  | gap hgap hcomment =>
    by_cases hne : text = []
    · subst hne
      exact stops_halts hnext (hcomment rfl)
    · refine stops_gap hgap hne (fun hpre => hcomment rfl (hpre.trans ?_)) next
      exact List.prefix_append text next
  | @token _ _ gap rest t ts hgap hword hlex _ _ =>
    obtain ⟨hcomment, hparted⟩ := hword rfl
    by_cases hne : gap = []
    · subst hne
      rw [List.nil_append, List.append_assoc]
      exact stops_lexeme hlex (fun hk => hparted hk rfl) _
    · rw [List.append_assoc]
      exact stops_gap hgap hne hcomment _

/-- The lexer finds every cut. -/
theorem lexFrom_of_cut {next text : List Char} {before? : Option TokenKind} {offset : Nat}
    {ts : List Token} {fault? : Option LexFault} (h : Cut next before? offset ts text)
    (hnext : Halts (offset + text.length) next fault?) :
    lexFrom offset (text ++ next) = ⟨ts, fault?⟩ := by
  induction h with
  | gap hgap _ => rw [lexFrom_gap hgap, lexFrom_halts hnext]
  | @token before? offset gap rest t ts hgap _ hlex hoffset hcut ih =>
    have hlen : offset + (gap ++ (t.text ++ rest)).length =
        t.offset + t.text.length + rest.length := by
      simp only [List.length_append]
      omega
    rw [hlen] at hnext
    have hstops : t.kind = .word → Stops isWordChar (rest ++ next) := by
      intro hk
      rw [hk] at hcut
      exact hcut.stops hnext
    rw [List.append_assoc, List.append_assoc, lexFrom_gap hgap, ← hoffset,
      lexFrom_lexeme hlex hstops, ih hnext]
    rfl

/-! ## The cut that the lexer finds -/

/-- A gap in front of a cut text belongs to its first gap. -/
theorem Cut.prepend {next text gap : List Char} {before? : Option TokenKind} {offset : Nat}
    {ts : List Token} (hne : gap ≠ []) (hword : before? = some .word → Stops isWordChar gap)
    (hgap : ∀ g next', g ++ next' = text ++ next → Gap next' g → Gap next' (gap ++ g))
    (h : Cut next none (offset + gap.length) ts text) :
    Cut next before? offset ts (gap ++ text) := by
  have hcomment : before? = some .word → ∀ rest, ¬ ['/', '*'] <+: gap ++ rest := by
    rintro hb rest ⟨t, ht⟩
    have hstop := hword hb
    cases gap with
    | nil => exact hne rfl
    | cons c gap =>
      simp only [List.cons_append, List.nil_append, List.cons.injEq] at ht
      rw [stops_cons, ← ht.1] at hstop
      exact absurd hstop (by decide)
  cases h with
  | gap hg _ =>
    refine .gap (hgap text next rfl hg) fun hb => ?_
    rw [List.append_assoc]
    exact hcomment hb _
  | @token _ _ g rest t ts hg _ hlex hoffset hcut =>
    rw [← List.append_assoc]
    refine .token (hgap g _ (by simp only [List.append_assoc]) hg) (fun hb => ⟨hcomment hb g, ?_⟩)
      hlex ?_ hcut
    · intro _ hnil
      exact hne (List.append_eq_nil_iff.1 hnil).1
    · rw [hoffset, List.length_append, Nat.add_assoc]

/-- The result of the lexer is a cut of the text up to the place where the lexer stops. -/
def CutAs (before? : Option TokenKind) (offset : Nat) (cs : List Char) (lexed : Lexed) : Prop :=
  ∃ text next, cs = text ++ next ∧ Cut next before? offset lexed.tokens text ∧
    Halts (offset + text.length) next lexed.fault?

variable {before? : Option TokenKind} {offset : Nat} {lexed : Lexed}

theorem cutAs_halts {cs : List Char} {fault? : Option LexFault}
    (hword : before? = some .word → Stops isWordChar cs) (h : Halts offset cs fault?) :
    CutAs before? offset cs ⟨[], fault?⟩ := by
  refine ⟨[], cs, rfl, .gap .nil fun hb => ?_, h⟩
  rintro ⟨t, rfl⟩
  exact absurd (stops_cons.1 (hword hb)) (by decide)

theorem cutAs_gap {cs gap rest : List Char} {n : Nat} (hcs : cs = gap ++ rest)
    (hn : n = offset + gap.length) (hne : gap ≠ [])
    (hword : before? = some .word → Stops isWordChar gap)
    (hgap : ∀ g next, g ++ next = rest → Gap next g → Gap next (gap ++ g))
    (h : CutAs none n rest lexed) : CutAs before? offset cs lexed := by
  subst hcs hn
  obtain ⟨text, next, rfl, hcut, hhalts⟩ := h
  refine ⟨gap ++ text, next, (List.append_assoc _ _ _).symm, hcut.prepend hne hword hgap, ?_⟩
  rwa [List.length_append, ← Nat.add_assoc]

theorem cutAs_token {cs token rest : List Char} {kind : TokenKind} {n : Nat}
    (hcs : cs = token ++ rest) (hn : n = offset + token.length) (hlex : Lexeme kind token)
    (hword : before? = some .word → kind ≠ .word) (h : CutAs (some kind) n rest lexed) :
    CutAs before? offset cs (Lexed.cons ⟨kind, token, offset⟩ lexed) := by
  subst hcs hn
  obtain ⟨text, next, rfl, hcut, hhalts⟩ := h
  have hfirst : before? = some .word →
      ¬ ['/', '*'] <+: [] ∧ (kind = .word → ([] : List Char) ≠ []) := fun hb =>
    ⟨by simp, fun hk => absurd hk (hword hb)⟩
  refine ⟨token ++ text, next, (List.append_assoc _ _ _).symm,
    .token .nil hfirst hlex (Nat.add_zero offset).symm hcut, ?_⟩
  rwa [List.length_append, ← Nat.add_assoc]

theorem ne_word_of_stops {c : Char} {cs : List Char} (hc : isWordChar c = true)
    (hword : before? = some .word → Stops isWordChar (c :: cs)) : before? ≠ some .word := by
  intro hb
  rw [stops_cons.1 (hword hb)] at hc
  cases hc

theorem isWordChar_of_ne {c : Char} (hblank : ¬ isBlank c = true) (hsemi : ¬ c = ';')
    (hopen : ¬ c = '(') (hclose : ¬ c = ')') (hquote : ¬ c = '\x22') : isWordChar c = true := by
  simp [isWordChar, hblank, hsemi, hopen, hclose, hquote]

theorem isWord_takeWhile {c : Char} {cs : List Char} (hc : isWordChar c = true)
    (hcomment : ¬ (c = '/' ∧ cs.head? = some '*')) : IsWord (c :: cs.takeWhile isWordChar) where
  ne_nil := List.cons_ne_nil _ _
  isWordChar := List.forall_mem_cons.2 ⟨hc, fun _ => List.mem_takeWhile_imp⟩
  noComment := by
    rintro ⟨t, ht⟩
    simp only [List.cons_append, List.nil_append, List.cons.injEq] at ht
    have hpre : '*' :: t <+: cs := ht.2 ▸ List.takeWhile_prefix isWordChar
    obtain ⟨u, rfl⟩ := hpre
    exact hcomment ⟨ht.1.symm, rfl⟩

/-- Every text is cut up to its end or to a fault. The induction follows the lexer; behind a word
the text starts with a character that ends the word. -/
theorem cutAs_lexFrom (offset : Nat) (cs : List Char) (before? : Option TokenKind)
    (hword : before? = some .word → Stops isWordChar cs) :
    CutAs before? offset cs (lexFrom offset cs) := by
  fun_induction lexFrom offset cs generalizing before? with
  | case1 offset => exact cutAs_halts hword rfl
  | case2 offset c cs hblank ih =>
    have hstop : Stops isWordChar [c] := stops_cons.2 (by simp [isWordChar, hblank])
    have hgap : ∀ g next, g ++ next = cs → Gap next g → Gap next ([c] ++ g) := fun _ _ _ hg =>
      .blank hblank hg
    exact cutAs_gap rfl rfl (List.cons_ne_nil c []) (fun _ => hstop) hgap (ih none (by simp))
  | case3 offset cs _ ih =>
    have hbody : '\n' ∉ cs.takeWhile (· != '\n') := fun h =>
      absurd (List.mem_takeWhile_imp h) (by decide)
    have hcs : ';' :: cs = ';' :: cs.takeWhile (· != '\n') ++ cs.dropWhile (· != '\n') := by
      rw [List.cons_append, List.takeWhile_append_dropWhile]
    refine cutAs_gap hcs ?_ (List.cons_ne_nil _ _) (fun _ => stops_cons.2 (by decide)) ?_
      (ih none (by simp))
    · rw [List.length_cons]
      omega
    · intro g next hg hgap
      exact .lineComment hbody (hg ▸ stops_dropWhile cs) hgap
  | case4 offset c cs _ _ hstart n rest hend ih =>
    obtain ⟨rfl, hstar⟩ := hstart
    obtain ⟨cs, rfl⟩ := List.head?_eq_some_iff.1 hstar
    obtain ⟨body, hbody, rfl, rfl⟩ := body_of_afterComment? hend
    have hcs : '/' :: '*' :: (body ++ '*' :: '/' :: rest) =
        '/' :: '*' :: (body ++ ['*', '/']) ++ rest := by simp
    refine cutAs_gap hcs ?_ (List.cons_ne_nil _ _)
      (fun hb => absurd hb (ne_word_of_stops (by decide) hword)) ?_ (ih none (by simp))
    · simp only [List.length_cons, List.length_append, List.length_nil]
      omega
    · intro g next hg hgap
      have := Gap.blockComment hbody hgap
      simpa using this
  | case5 offset c cs _ _ hstart hend =>
    obtain ⟨rfl, hstar⟩ := hstart
    obtain ⟨cs, rfl⟩ := List.head?_eq_some_iff.1 hstar
    exact cutAs_halts hword ⟨rfl, .comment (afterComment?_eq_none_iff.1 hend)⟩
  | case6 offset cs _ _ _ ih => exact cutAs_token rfl rfl .opening (by simp) (ih _ (by simp))
  | case7 offset cs _ _ _ _ ih => exact cutAs_token rfl rfl .closing (by simp) (ih _ (by simp))
  | case8 offset cs s rest hend _ _ _ _ _ ih =>
    obtain ⟨body, hbody, rfl, rfl⟩ := quoted_of_afterQuote? hend
    refine cutAs_token ?_ ?_ (.string hbody) (by simp) (ih _ (by simp))
    · simp
    · rw [List.length_cons]
      omega
  | case9 offset cs hend _ _ _ _ _ =>
    exact cutAs_halts hword ⟨rfl, .string (afterQuote?_eq_none_iff.1 hend)⟩
  | case10 offset c cs _ _ hcomment _ _ _ hc ih =>
    refine cutAs_token ?_ ?_ (.word (isWord_takeWhile hc hcomment))
      (fun hb => absurd hb (ne_word_of_stops hc hword)) (ih _ fun _ => stops_dropWhile cs)
    · rw [List.cons_append, List.takeWhile_append_dropWhile]
    · rw [List.length_cons]
      omega
  | case11 offset c cs hblank hsemi _ hopen hclose hquote hc =>
    exact absurd (isWordChar_of_ne hblank hsemi hopen hclose hquote) hc

theorem lexFrom_eq_iff_cutAs {offset : Nat} {cs : List Char} {lexed : Lexed} :
    lexFrom offset cs = lexed ↔ CutAs none offset cs lexed := by
  constructor
  · rintro rfl
    exact cutAs_lexFrom offset cs none nofun
  · rintro ⟨text, next, rfl, hcut, hhalts⟩
    exact lexFrom_of_cut hcut hhalts

end Formulary.Token

namespace Formulary

open Token

theorem lex_eq_complete_iff {source : List Char} {ts : List Token} :
    lex source = ⟨ts, none⟩ ↔ Cut [] none 0 ts source := by
  rw [lex, lexFrom_eq_iff_cutAs]
  constructor
  · rintro ⟨text, next, rfl, hcut, rfl⟩
    rwa [List.append_nil]
  · intro hcut
    exact ⟨source, [], (List.append_nil source).symm, hcut, rfl⟩

/-- The lexer takes exactly the texts that can be cut into tokens and gaps, and gives the tokens of
the cut. Of every other text it gives the tokens in front of a string literal or block comment
that never ends; no character is ever unexpected. -/
theorem lex_eq_iff_cut (source : List Char) :
    (∀ ts, lex source = ⟨ts, none⟩ ↔ Cut [] none 0 ts source) ∧
      ((∀ ts, ¬ Cut [] none 0 ts source) → ∃ ts fault text next,
        lex source = ⟨ts, some fault⟩ ∧ source = text ++ next ∧ Cut next none 0 ts text ∧
        fault.offset = text.length ∧ Unterminated fault.kind next ∧
        (∀ c, fault.kind ≠ .unexpectedCharacter c) ∧
        ∀ file, (fault.error (.ofSource file source)).kind = .reading) := by
  refine ⟨fun ts => lex_eq_complete_iff, fun hno => ?_⟩
  cases hlex : lex source with
  | mk ts fault? =>
    cases fault? with
    | none => exact absurd (lex_eq_complete_iff.1 hlex) (hno ts)
    | some fault =>
      obtain ⟨text, next, rfl, hcut, hoffset, hkind⟩ := lexFrom_eq_iff_cutAs.1 hlex
      rw [Nat.zero_add] at hoffset
      refine ⟨ts, fault, text, next, rfl, rfl, hcut, hoffset, hkind, ?_, ?_⟩
      · intro c hc
        rw [hc] at hkind
        cases hkind
      · intro file
        obtain ⟨kind, offset⟩ := fault
        cases hkind <;> rfl

end Formulary
