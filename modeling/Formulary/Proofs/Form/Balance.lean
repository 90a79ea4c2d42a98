import Formulary.Form.Reader
import Formulary.Proofs.Token.Grammar

/-!
# Balanced tokens

The reader takes exactly the token sequences whose parentheses are balanced, and its forms hold
every token once and in order. What the reader has taken so far is described by the lists that
are still open: in front of the first, and behind the parenthesis of each, stand balanced tokens.
A step of the reader keeps this description, and at the end of the tokens it says whether a list
is open.
-/
namespace Formulary

namespace Token

def count (kind : TokenKind) (ts : List Token) : Nat := ts.countP (·.kind == kind)

@[simp] theorem count_nil (kind : TokenKind) : count kind [] = 0 := rfl

@[simp] theorem count_cons (kind : TokenKind) (t : Token) (ts : List Token) :
    count kind (t :: ts) = count kind ts + if t.kind = kind then 1 else 0 := by
  simp [count, List.countP_cons]

@[simp] theorem count_append (kind : TokenKind) (ts us : List Token) :
    count kind (ts ++ us) = count kind ts + count kind us :=
  List.countP_append

/-- Every closing parenthesis closes something: no prefix has more closing than opening ones. -/
def NoStray (ts : List Token) : Prop := ∀ us, us <+: ts → count .closing us ≤ count .opening us

structure Balanced (ts : List Token) : Prop where
  noStray : NoStray ts
  totals : count .opening ts = count .closing ts

/-- Behind the tokens `us`, the token is the first closing parenthesis that closes nothing. -/
structure FirstStray (us : List Token) (t : Token) : Prop where
  kind : t.kind = .closing
  before : NoStray us
  stray : ¬ NoStray (us ++ [t])

/-- In front of the tokens `vs`, which end the text, the token is an opening parenthesis that
nothing closes, and nothing that is opened later is left open. -/
structure LastOpen (t : Token) (vs : List Token) : Prop where
  kind : t.kind = .opening
  unclosed : NoStray vs
  last : ∀ us u ws, vs = us ++ u :: ws → u.kind = .opening → ¬ NoStray ws

/-- What a token holds: a string literal the text that it denotes, any other token its text. -/
def content (t : Token) : Except EscapeError (TokenKind × List Char) :=
  match t.kind with
  | .string => (unescape t.text).map fun value => (.string, value)
  | kind => .ok (kind, t.text)

/-! ## Balance -/

theorem NoStray.le {ts : List Token} (h : NoStray ts) : count .closing ts ≤ count .opening ts :=
  h ts List.prefix_rfl

theorem noStray_nil : NoStray [] := by
  intro us hus
  rw [List.prefix_nil.1 hus, count_nil, count_nil]

theorem NoStray.append {ts us : List Token} (ht : NoStray ts) (hu : NoStray us) :
    NoStray (ts ++ us) := by
  intro vs hvs
  rcases List.prefix_or_prefix_of_prefix hvs (List.prefix_append ts us) with h | ⟨ws, rfl⟩
  · exact ht vs h
  · have h₁ := ht.le
    have h₂ := hu ws ((List.prefix_append_right_inj ts).1 hvs)
    rw [count_append, count_append]
    omega

theorem noStray_singleton {t : Token} (h : t.kind ≠ .closing) : NoStray [t] := by
  intro us hus
  rcases List.prefix_cons_iff.1 hus with rfl | ⟨vs, rfl, hvs⟩
  · rfl
  · rw [List.prefix_nil.1 hvs]
    simp [h]

theorem balanced_nil : Balanced [] := ⟨noStray_nil, rfl⟩

theorem Balanced.append {ts us : List Token} (ht : Balanced ts) (hu : Balanced us) :
    Balanced (ts ++ us) where
  noStray := ht.noStray.append hu.noStray
  totals := by rw [count_append, count_append, ht.totals, hu.totals]

theorem balanced_singleton {t : Token} (hopen : t.kind ≠ .opening) (hclose : t.kind ≠ .closing) :
    Balanced [t] where
  noStray := noStray_singleton hclose
  totals := by simp [hopen, hclose]

theorem Balanced.enclose {s t : Token} {ts : List Token} (h : Balanced ts)
    (hs : s.kind = .opening) (ht : t.kind = .closing) : Balanced (s :: (ts ++ [t])) where
  noStray := by
    intro us hus
    rcases List.prefix_cons_iff.1 hus with rfl | ⟨vs, rfl, hvs⟩
    · rfl
    · rcases List.prefix_concat_iff.1 hvs with rfl | hvs
      · have := h.totals
        simp [hs, ht]
        omega
      · have := h.noStray vs hvs
        simp [hs]
        omega
  totals := by
    have := h.totals
    simp [hs, ht]
    omega

theorem Balanced.firstStray {us : List Token} {t : Token} (h : Balanced us)
    (ht : t.kind = .closing) : FirstStray us t where
  kind := ht
  before := h.noStray
  stray hno := by
    have h₁ := hno.le
    have h₂ := h.totals
    simp [ht] at h₁
    omega

theorem Balanced.lastOpen {t : Token} {vs : List Token} (h : Balanced vs)
    (ht : t.kind = .opening) : LastOpen t vs where
  kind := ht
  unclosed := h.noStray
  last us u ws hvs hu hws := by
    -- the later parenthesis would be one opening too many
    have h₁ := h.noStray us (hvs ▸ List.prefix_append us (u :: ws))
    have h₂ := hws.le
    have h₃ := h.totals
    rw [hvs] at h₃
    simp [hu] at h₃
    omega

theorem FirstStray.not_balanced {us vs : List Token} {t : Token} (h : FirstStray us t) :
    ¬ Balanced (us ++ t :: vs) := by
  intro hb
  apply h.stray
  intro ws hws
  apply hb.noStray ws
  rw [List.append_cons]
  exact hws.trans (List.prefix_append _ vs)

theorem LastOpen.not_balanced {us vs : List Token} {t : Token} (h : LastOpen t vs)
    (hno : NoStray (us ++ t :: vs)) : ¬ Balanced (us ++ t :: vs) := by
  intro hb
  have h₁ := hno us (List.prefix_append us (t :: vs))
  have h₂ := h.unclosed.le
  have h₃ := hb.totals
  simp [h.kind] at h₃
  omega

theorem lexeme_of_cut {next text : List Char} {before? : Option TokenKind} {offset : Nat}
    {ts : List Token} (h : Cut next before? offset ts text) :
    ∀ t ∈ ts, Lexeme t.kind t.text := by
  induction h with
  | gap _ _ => simp
  | token _ _ hlex _ _ ih => exact List.forall_mem_cons.2 ⟨hlex, ih⟩

end Token

namespace Form

open Token

theorem lexeme_of_mem_lex {source : List Char} :
    ∀ t ∈ (lex source).tokens, Lexeme t.kind t.text := by
  obtain ⟨text, next, -, hcut, -⟩ := cutAs_lexFrom 0 source none nofun
  exact lexeme_of_cut hcut

mutual

/-- The tokens of a form as they show in it: a list by its parentheses and what they enclose, a
number or symbol by its literal, a string by its value. -/
def flatten : Form → List (TokenKind × List Char)
  | .string _ value => [(.string, value)]
  | .number _ literal _ => [(.word, literal)]
  | .symbol _ literal => [(.word, literal)]
  | .list _ items => (.opening, ['(']) :: (flattenAll items ++ [(.closing, [')'])])
  | .bare _ => []

def flattenAll : List Form → List (TokenKind × List Char)
  | [] => []
  | form :: forms => flatten form ++ flattenAll forms

end

theorem flattenAll_append (forms forms' : List Form) :
    flattenAll (forms ++ forms') = flattenAll forms ++ flattenAll forms' := by
  induction forms with
  | nil => rfl
  | cons form forms ih => rw [List.cons_append, flattenAll, flattenAll, ih, List.append_assoc]

theorem flattenAll_singleton (form : Form) : flattenAll [form] = flatten form := by
  rw [flattenAll, flattenAll, List.append_nil]

theorem flatten_ofWord (pos : Position) (text : List Char) :
    flatten (ofWord pos text) = [(.word, text)] := by
  unfold ofWord
  split <;> rfl

/-- The tokens are balanced and make the forms, none of them being lost. -/
structure Makes (ts : List Token) (forms : List Form) : Prop where
  balanced : Balanced ts
  contents : ts.map content = (flattenAll forms).map .ok

theorem makes_nil : Makes [] [] := ⟨balanced_nil, rfl⟩

theorem Makes.append {ts us : List Token} {forms forms' : List Form} (h : Makes ts forms)
    (h' : Makes us forms') : Makes (ts ++ us) (forms ++ forms') where
  balanced := h.balanced.append h'.balanced
  contents := by
    rw [List.map_append, flattenAll_append, List.map_append, h.contents, h'.contents]

theorem makes_word {t : Token} (ht : t.kind = .word) (pos : Position) :
    Makes [t] [ofWord pos t.text] where
  balanced := balanced_singleton (by simp [ht]) (by simp [ht])
  contents := by
    rw [flattenAll_singleton, flatten_ofWord]
    simp [content, ht]

theorem makes_string {t : Token} {value : List Char} (ht : t.kind = .string)
    (hvalue : unescape t.text = .ok value) (pos : Position) : Makes [t] [.string pos value] where
  balanced := balanced_singleton (by simp [ht]) (by simp [ht])
  contents := by
    rw [flattenAll_singleton, flatten]
    simp [content, ht, hvalue, Except.map]

theorem Makes.list {s t : Token} {ts : List Token} {items : List Form} (h : Makes ts items)
    (hs : s.kind = .opening) (hs' : s.text = ['(']) (ht : t.kind = .closing)
    (ht' : t.text = [')']) (pos : Position) : Makes (s :: (ts ++ [t])) [.list pos items] where
  balanced := h.balanced.enclose hs ht
  contents := by
    rw [flattenAll_singleton, flatten]
    simp [content, hs, hs', ht, ht', h.contents]

/-! ## What the reader has taken so far -/

/-- The tokens that were read make the complete forms, and behind the parenthesis of each open
list those that make its items so far. -/
inductive Progress (lines : LineIndex) : List Token → List Form → List Frame → Prop
  | complete {ts : List Token} {forms : List Form} : Makes ts forms → Progress lines ts forms []
  | inside {us vs : List Token} {t : Token} {forms : List Form} {frame : Frame}
      {stack : List Frame} : Progress lines us forms stack → t.kind = .opening → t.text = ['('] →
      frame.pos = lines.position t.offset → Makes vs frame.items.reverse →
      Progress lines (us ++ t :: vs) forms (frame :: stack)

/-- The same after a step, which may have completed a form. -/
def Advanced (lines : LineIndex) (ts : List Token) (forms : List Form) : Step → Prop
  | .done form => Progress lines ts (forms ++ [form]) []
  | .more stack => Progress lines ts forms stack

variable {lines : LineIndex} {us : List Token} {forms : List Form} {stack : List Frame}

theorem Progress.place {vs : List Token} {form : Form} (h : Progress lines us forms stack)
    (hv : Makes vs [form]) : Advanced lines (us ++ vs) forms (place form stack) := by
  cases h with
  | complete hm => exact .complete (hm.append hv)
  | @inside us ws t forms frame stack h hkind htext hpos hm =>
    have hitems : Makes (ws ++ vs) (form :: frame.items).reverse := by
      rw [List.reverse_cons]
      exact hm.append hv
    rw [List.append_assoc]
    exact .inside h hkind htext hpos hitems

theorem Progress.noStray (h : Progress lines us forms stack) : NoStray us := by
  induction h with
  | complete hm => exact hm.balanced.noStray
  | @inside us vs t forms frame stack _ hkind _ _ hm ih =>
    have hopen : NoStray [t] := noStray_singleton (by simp [hkind])
    exact ih.append (hopen.append hm.balanced.noStray)

/-- A token as the lexer gives it, whose escapes can be resolved. -/
structure Sound (t : Token) : Prop where
  lexeme : Lexeme t.kind t.text
  escapes : t.kind = .string → ∃ value, unescape t.text = .ok value

/-- A step fails only at a closing parenthesis that closes nothing, and otherwise takes the token
into what was read. -/
theorem step_cases {t : Token} (ht : Sound t) (h : Progress lines us forms stack) :
    (FirstStray us t ∧ step lines stack t = .error (.unexpectedClosing (lines.position t.offset))) ∨
      ∃ s, step lines stack t = .ok s ∧ Advanced lines (us ++ [t]) forms s := by
  obtain ⟨kind, text, offset⟩ := t
  obtain ⟨hlex, hescapes⟩ := ht
  dsimp only at hlex hescapes
  cases hlex with
  | opening => exact Or.inr ⟨_, rfl, .inside h rfl rfl rfl makes_nil⟩
  | closing =>
    cases h with
    | complete hm => exact Or.inl ⟨hm.balanced.firstStray rfl, rfl⟩
    | @inside us vs t forms frame stack h hkind htext hpos hm =>
      refine Or.inr ⟨_, rfl, ?_⟩
      rw [List.append_assoc]
      exact h.place (hm.list hkind htext rfl rfl frame.pos)
  | string hbody =>
    obtain ⟨value, hvalue⟩ := hescapes rfl
    refine Or.inr ⟨_, by simp only [step, hvalue]; rfl, h.place (makes_string rfl hvalue _)⟩
  | word hw => exact Or.inr ⟨_, rfl, h.place (makes_word rfl _)⟩

/-- How the reading of some tokens ends: with the forms that they make, at the first closing
parenthesis that closes nothing, or, if there is none, with the last list that is left open. -/
inductive Verdict (lines : LineIndex) (ts : List Token) : List Form → Option ReadError → Prop
  | balanced {forms : List Form} : Makes ts forms → Verdict lines ts forms none
  | stray {us vs : List Token} {t : Token} {forms : List Form} : ts = us ++ t :: vs →
      FirstStray us t →
      Verdict lines ts forms (some (.unexpectedClosing (lines.position t.offset)))
  | unclosed {us vs : List Token} {t : Token} {forms : List Form} : ts = us ++ t :: vs →
      NoStray ts → LastOpen t vs →
      Verdict lines ts forms (some (.unmatchedOpening (lines.position t.offset)))

theorem verdict_readMany {ts : List Token} (hts : ∀ t ∈ ts, Sound t)
    (h : Progress lines us forms stack) :
    Verdict lines (us ++ ts) (forms ++ (readMany lines none stack ts).1)
      (readMany lines none stack ts).2 := by
  induction ts generalizing us forms stack with
  | nil =>
    rw [List.append_nil, readMany, List.append_nil]
    cases h with
    | complete hm => exact .balanced hm
    | @inside us vs t forms frame stack h hkind htext hpos hm =>
      have hno := (Progress.inside h hkind htext hpos hm).noStray
      have hend : atEnd lines none (frame :: stack) =
          some (.unmatchedOpening (lines.position t.offset)) := by rw [← hpos]; rfl
      rw [hend]
      exact .unclosed rfl hno (hm.balanced.lastOpen hkind)
  | cons t ts ih =>
    rw [List.forall_mem_cons] at hts
    rcases step_cases hts.1 h with ⟨hstray, hstep⟩ | ⟨s, hstep, hs⟩
    · rw [readMany, hstep]
      exact .stray rfl hstray
    · have hrest : us ++ t :: ts = us ++ [t] ++ ts := List.append_cons us t ts
      cases s with
      | done form =>
        have hforms : ∀ forms', forms ++ form :: forms' = forms ++ [form] ++ forms' :=
          List.append_cons forms form
        simp only [readMany, hstep]
        rw [hrest, hforms]
        exact ih hts.2 hs
      | more stack =>
        simp only [readMany, hstep]
        rw [hrest]
        exact ih hts.2 hs

/-- A text whose literals can all be resolved is read as forms exactly when its parentheses are
balanced. The forms then hold every token once and in order; otherwise the error names the first
closing parenthesis that closes nothing or, if there is none, the last one left open. -/
theorem readAll_of_lex (file : String) (source : List Char) (ts : List Token)
    (hlex : lex source = ⟨ts, none⟩)
    (hescapes : ∀ t ∈ ts, t.kind = .string → ∃ value, unescape t.text = .ok value) :
    ((readAll file source).2 = none ↔ Balanced ts) ∧
      (Balanced ts → ts.map content = (flattenAll (readAll file source).1).map .ok) ∧
      (¬ Balanced ts → ∃ us t vs, ts = us ++ t :: vs ∧
        (FirstStray us t ∧ (readAll file source).2 =
            some (.unexpectedClosing ((LineIndex.ofSource file source).position t.offset)) ∨
          NoStray ts ∧ LastOpen t vs ∧ (readAll file source).2 =
            some (.unmatchedOpening ((LineIndex.ofSource file source).position t.offset)))) ∧
      ∀ e ∈ (readAll file source).2, e.kind = .reading := by
  have hcut : Cut [] none 0 ts source := lex_eq_complete_iff.1 hlex
  have hsound : ∀ t ∈ ts, Sound t := fun t ht => ⟨lexeme_of_cut hcut t ht, hescapes t ht⟩
  have hread : readAll file source = readMany (.ofSource file source) none [] ts := by
    simp only [readAll, hlex]
  have hstart : Progress (.ofSource file source) [] [] [] := .complete makes_nil
  have hverdict := verdict_readMany hsound hstart
  rw [← hread, List.nil_append, List.nil_append] at hverdict
  generalize readAll file source = r at hverdict
  obtain ⟨forms, e?⟩ := r
  cases hverdict with
  | balanced hm => exact ⟨⟨fun _ => hm.balanced, fun _ => rfl⟩, fun _ => hm.contents,
      fun hno => absurd hm.balanced hno, nofun⟩
  | @stray us vs t _ hts hstray =>
    have hno : ¬ Balanced ts := hts ▸ hstray.not_balanced
    refine ⟨⟨nofun, fun hb => absurd hb hno⟩, fun hb => absurd hb hno,
      fun _ => ⟨us, t, vs, hts, Or.inl ⟨hstray, rfl⟩⟩, ?_⟩
    rintro e ⟨⟩
    rfl
  | @unclosed us vs t _ hts hnoStray hlast =>
    have hno : ¬ Balanced ts := by
      rw [hts] at hnoStray ⊢
      exact hlast.not_balanced hnoStray
    refine ⟨⟨nofun, fun hb => absurd hb hno⟩, fun hb => absurd hb hno,
      fun _ => ⟨us, t, vs, hts, Or.inr ⟨hnoStray, hlast, rfl⟩⟩, ?_⟩
    rintro e ⟨⟩
    rfl

theorem readAll_of_lex_nested :
    let source := "(f \"a\\n\" (2))".toList
    let ts : List Token := [⟨.opening, ['('], 0⟩, ⟨.word, ['f'], 1⟩,
      ⟨.string, "\"a\\n\"".toList, 3⟩, ⟨.opening, ['('], 9⟩, ⟨.word, ['2'], 10⟩,
      ⟨.closing, [')'], 11⟩, ⟨.closing, [')'], 12⟩]
    lex source = ⟨ts, none⟩ ∧
      (∀ t ∈ ts, t.kind = .string → ∃ value, unescape t.text = .ok value) ∧
      ((readAll "in.formula" source).2 = none ↔ Balanced ts) := by
  intro source ts
  have hlex : lex source = ⟨ts, none⟩ := by decide +kernel
  have hliteral : unescape "\"a\\n\"".toList = .ok ['a', '\n'] := by decide +kernel
  have hescapes : ∀ t ∈ ts, t.kind = .string → ∃ value, unescape t.text = .ok value := by
    simp only [ts, List.forall_mem_cons]
    exact ⟨nofun, nofun, fun _ => ⟨_, hliteral⟩, nofun, nofun, nofun, nofun, nofun⟩
  exact ⟨hlex, hescapes, (readAll_of_lex "in.formula" source ts hlex hescapes).1⟩

end Form

end Formulary
