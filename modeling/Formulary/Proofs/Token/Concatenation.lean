import Formulary.Proofs.Token.Grammar

/-!
# The tokens of texts in a row

A text that is cut to its end and a newline behind it change nothing in the tokens of what follows
but their offsets, and what follows changes nothing in the tokens of the text.
-/
namespace Formulary.Token

open Text (isBlank Stops stops_nil stops_cons stops_dropWhile)

/-- The token at a place so many characters further on. -/
def shift (k : Nat) (t : Token) : Token := { t with offset := t.offset + k }

def Lexed.shift (k : Nat) (l : Lexed) : Lexed :=
  ⟨l.tokens.map (Token.shift k), l.fault?.map fun fault => { fault with offset := fault.offset + k }⟩

/-! ## A text that starts later -/

theorem Cut.shift {next text : List Char} {before? : Option TokenKind} {offset : Nat}
    {ts : List Token} (h : Cut next before? offset ts text) (k : Nat) :
    Cut next before? (offset + k) (ts.map (Token.shift k)) text := by
  induction h with
  | gap hgap hcomment => exact .gap hgap hcomment
  | @token before? offset gap rest t ts hgap hword hlex hoffset _ ih =>
    refine .token (t := t.shift k) hgap hword hlex ?_ ?_
    · simp only [Token.shift, hoffset]
      omega
    · have hend : t.offset + k + t.text.length = t.offset + t.text.length + k := by omega
      simp only [Token.shift, hend]
      exact ih

/-- Where a text starts only moves its tokens. -/
theorem lexFrom_shift (offset k : Nat) (cs : List Char) :
    lexFrom (offset + k) cs = Lexed.shift k (lexFrom offset cs) := by
  obtain ⟨text, next, rfl, hcut, hhalts⟩ := lexFrom_eq_iff_cutAs.1 (Eq.refl (lexFrom offset cs))
  refine lexFrom_eq_iff_cutAs.2 ⟨text, next, rfl, hcut.shift k, ?_⟩
  generalize lexFrom offset (text ++ next) = lexed at hhalts
  obtain ⟨ts, fault?⟩ := lexed
  cases fault? with
  | none => exact hhalts
  | some fault =>
    obtain ⟨hoffset, hkind⟩ := hhalts
    refine ⟨?_, hkind⟩
    dsimp only at hoffset ⊢
    omega

/-! ## Where the tokens of a text lie -/

theorem Cut.offset_le {next text : List Char} {before? : Option TokenKind} {offset : Nat}
    {ts : List Token} (h : Cut next before? offset ts text) :
    ∀ t ∈ ts, t.offset + t.text.length ≤ offset + text.length := by
  induction h with
  | gap _ _ => simp
  | @token before? offset gap rest t ts _ _ _ hoffset _ ih =>
    simp only [List.length_append]
    refine List.forall_mem_cons.2 ⟨by omega, fun u hu => ?_⟩
    have := ih u hu
    omega

theorem offset_le_of_mem_lex {source : List Char} :
    ∀ t ∈ (lex source).tokens, t.offset ≤ source.length := by
  obtain ⟨text, next, htext, hcut, -⟩ := cutAs_lexFrom 0 source none nofun
  intro t ht
  have hle := hcut.offset_le t ht
  have hlen := congrArg List.length htext
  rw [List.length_append] at hlen
  omega

theorem offset_le_of_fault {source : List Char} :
    ∀ fault ∈ (lex source).fault?, fault.offset ≤ source.length := by
  obtain ⟨text, next, htext, -, hhalts⟩ := cutAs_lexFrom 0 source none nofun
  intro fault hfault
  rw [lex] at hfault
  rw [Option.mem_def.1 hfault] at hhalts
  have hoffset := hhalts.1
  have hlen := congrArg List.length htext
  rw [List.length_append] at hlen
  omega

theorem Cut.exists_gap {next text : List Char} {before? : Option TokenKind} {offset : Nat}
    {ts : List Token} (h : Cut next before? offset ts text) :
    ∀ t ∈ ts, Lexeme t.kind t.text ∧ ∃ before after, text = before ++ (t.text ++ after) ∧
      t.offset = offset + before.length := by
  induction h with
  | gap _ _ => simp
  | @token before? offset gap rest t ts _ _ hlex hoffset _ ih =>
    refine List.forall_mem_cons.2 ⟨⟨hlex, gap, rest, rfl, hoffset⟩, fun u hu => ?_⟩
    obtain ⟨hlex', before, after, rfl, hu'⟩ := ih u hu
    refine ⟨hlex', gap ++ (t.text ++ before), after, by simp, ?_⟩
    simp only [List.length_append]
    omega

/-- A token of a text is written there at its offset. -/
theorem lexeme_of_mem_lex {source : List Char} :
    ∀ t ∈ (lex source).tokens, Lexeme t.kind t.text ∧ t.text <+: source.drop t.offset := by
  obtain ⟨text, next, rfl, hcut, -⟩ := cutAs_lexFrom 0 source none nofun
  intro t ht
  obtain ⟨hlex, before, after, rfl, hoffset⟩ := hcut.exists_gap t ht
  refine ⟨hlex, ?_⟩
  rw [hoffset, Nat.zero_add, List.append_assoc, List.drop_left, List.append_assoc]
  exact List.prefix_append _ _

theorem Lexeme.ne_nil {kind : TokenKind} {text : List Char} (h : Lexeme kind text) : text ≠ [] := by
  cases h with
  | word h => exact h.1
  | _ => exact List.cons_ne_nil _ _

theorem Cut.sorted {next text : List Char} {before? : Option TokenKind} {offset : Nat}
    {ts : List Token} (h : Cut next before? offset ts text) :
    ts.Pairwise (fun t u => t.offset < u.offset) ∧ ∀ t ∈ ts, offset ≤ t.offset := by
  induction h with
  | gap _ _ => simp
  | @token before? offset gap rest t ts _ _ hlex hoffset _ ih =>
    obtain ⟨hsorted, hbounds⟩ := ih
    have hlength : 0 < t.text.length := List.length_pos_iff.2 hlex.ne_nil
    refine ⟨List.pairwise_cons.2 ⟨fun u hu => ?_, hsorted⟩,
      List.forall_mem_cons.2 ⟨by omega, fun u hu => ?_⟩⟩
    · have := hbounds u hu
      omega
    · have := hbounds u hu
      omega

theorem sorted_lex (source : List Char) :
    (lex source).tokens.Pairwise (fun t u => t.offset < u.offset) := by
  obtain ⟨text, next, -, hcut, -⟩ := cutAs_lexFrom 0 source none nofun
  exact hcut.sorted.1

/-! ## A text in front of a newline -/

theorem stops_append_newline {p : Char → Bool} {cs : List Char} (h : Stops p cs)
    (hp : p '\n' = false) (rest : List Char) : Stops p (cs ++ '\n' :: rest) := by
  cases cs with
  | nil => exact stops_cons.2 hp
  | cons c cs => exact stops_cons.2 (stops_cons.1 h)

/-- The first run of a text is the same with a newline behind the text that ends it at the latest. -/
theorem run_append_newline {p : Char → Bool} (hp : p '\n' = false) (cs rest : List Char) :
    cs ++ '\n' :: rest = cs.takeWhile p ++ (cs.dropWhile p ++ '\n' :: rest) ∧
      Stops p (cs.dropWhile p ++ '\n' :: rest) ∧
      (cs.takeWhile p).length + (cs.dropWhile p).length = cs.length := by
  refine ⟨?_, stops_append_newline (stops_dropWhile cs) hp rest, ?_⟩
  · rw [← List.append_assoc, List.takeWhile_append_dropWhile]
  · rw [← List.length_append, List.takeWhile_append_dropWhile]

/-- The text of a newline and what follows it changes nothing in the tokens of a text that is cut
to its end. The induction follows the lexer on the text in front. -/
theorem lexFrom_append_newline {offset : Nat} {cs : List Char}
    (h : (lexFrom offset cs).fault? = none) (rest : List Char) :
    lexFrom offset (cs ++ '\n' :: rest) =
      Lexed.append (lexFrom offset cs).tokens (lexFrom (offset + (cs.length + 1)) rest) := by
  fun_induction lexFrom offset cs with
  | case1 offset =>
    rw [List.nil_append, lexFrom_blank (by decide)]
    rfl
  | case2 offset c cs hblank ih =>
    rw [List.cons_append, lexFrom_blank hblank, ih h, List.length_cons]
    congr 2
    omega
  | case3 offset cs _ ih =>
    -- the comment ends at a newline of its own, or at the one behind the text
    have hbody : '\n' ∉ cs.takeWhile (· != '\n') := fun h =>
      absurd (List.mem_takeWhile_imp h) (by decide)
    obtain ⟨htext, hstop, hlen⟩ := run_append_newline (p := (· != '\n')) (by decide) cs rest
    rw [List.cons_append, htext, lexFrom_lineComment hbody hstop, ← Nat.add_assoc, ih h,
      List.length_cons]
    congr 2
    omega
  | case4 offset c cs _ _ hstart n tail hend ih =>
    obtain ⟨rfl, hstar⟩ := hstart
    obtain ⟨cs, rfl⟩ := List.head?_eq_some_iff.1 hstar
    obtain ⟨body, hbody, rfl, rfl⟩ := body_of_afterComment? hend
    have htext : '/' :: '*' :: (body ++ '*' :: '/' :: tail) ++ '\n' :: rest =
        '/' :: '*' :: (body ++ '*' :: '/' :: (tail ++ '\n' :: rest)) := by simp
    rw [htext, lexFrom_blockComment hbody, ← Nat.add_assoc, ih h]
    congr 2
    simp only [List.length_cons, List.length_append]
    omega
  | case5 => cases h
  | case6 offset cs _ _ _ ih =>
    rw [List.cons_append, lexFrom_opening, ih h, Lexed.append_append, List.length_cons]
    congr 2
    omega
  | case7 offset cs _ _ _ _ ih =>
    rw [List.cons_append, lexFrom_closing, ih h, Lexed.append_append, List.length_cons]
    congr 2
    omega
  | case8 offset cs s tail hend _ _ _ _ _ ih =>
    obtain ⟨body, hbody, rfl, rfl⟩ := quoted_of_afterQuote? hend
    have htext : '\x22' :: (body ++ '\x22' :: tail) ++ '\n' :: rest =
        '\x22' :: (body ++ '\x22' :: (tail ++ '\n' :: rest)) := by simp
    rw [htext, lexFrom_literal hbody, List.length_cons, Nat.add_comm _ 1, ← Nat.add_assoc, ih h,
      Lexed.append_append]
    congr 2
    simp only [List.length_cons, List.length_append, List.length_nil]
    omega
  | case9 => cases h
  | case10 offset c cs _ _ hcomment _ _ _ hc ih =>
    obtain ⟨htext, hstop, hlen⟩ := run_append_newline (p := isWordChar) (by decide) cs rest
    rw [List.cons_append, htext, ← List.cons_append,
      lexFrom_word (isWord_takeWhile hc hcomment) hstop, List.length_cons, Nat.add_comm _ 1,
      ← Nat.add_assoc, ih h, Lexed.append_append, List.length_cons]
    congr 2
    omega
  | case11 => cases h

end Formulary.Token
