import Formulary.Expr.Printer
import Formulary.Form.Escape
import Formulary.Proofs.Text.Run
import Formulary.Token

/-!
# Quoted strings

What the printer puts between quotes is a sequence of units, each of them a plain character or a
complete escape. So the lexer finds the end of the literal where the printer wrote it, whatever
follows, and resolving the escapes gives the string back. No unit has a control character.
-/
namespace Formulary

/-- The character is one of the control characters of ASCII. -/
def IsControl (c : Char) : Prop := c.toNat < 0x20 ∨ c.toNat = 0x7F

instance : DecidablePred IsControl := fun _ => inferInstanceAs (Decidable (_ ∨ _))

/-- What an escaped character can look like. -/
theorem escapeInString_cases (c : Char) :
    (∃ e, escapeInString c = ['\\', e] ∧ Escape.simple? e = some c) ∨
      (c.toNat < 256 ∧ escapeInString c = '\\' :: 'x' :: Text.hex 2 c.toNat) ∨
      (escapeInString c = [c] ∧ c ≠ '\\' ∧ c ≠ '\x22' ∧ ¬ IsControl c) := by
  by_cases hq : c = '\x22'
  · subst hq
    exact Or.inl ⟨'\x22', rfl, rfl⟩
  by_cases hb : c = '\\'
  · subst hb
    exact Or.inl ⟨'\\', rfl, rfl⟩
  by_cases hn : c = '\n'
  · subst hn
    exact Or.inl ⟨'n', rfl, rfl⟩
  by_cases ht : c = '\t'
  · subst ht
    exact Or.inl ⟨'t', rfl, rfl⟩
  by_cases hr : c = '\r'
  · subst hr
    exact Or.inl ⟨'r', rfl, rfl⟩
  by_cases hcontrol : c.toNat < 0x20 ∨ c.toNat = 0x7F
  · refine Or.inr (Or.inl ⟨by omega, ?_⟩)
    simp only [escapeInString, hq, hb, hn, ht, hr, or_self, if_false, if_pos hcontrol]
  · refine Or.inr (Or.inr ⟨?_, hb, hq, hcontrol⟩)
    simp only [escapeInString, hq, hb, hn, ht, hr, or_self, if_false, if_neg hcontrol]

/-! ## No control characters -/

theorem not_isControl_of_simple? {e c : Char} (h : Escape.simple? e = some c) :
    ¬ IsControl e := by
  unfold Escape.simple? at h
  split at h
  case h_8 => cases h
  all_goals decide

theorem not_isControl_of_hexValue? {c : Char} (h : (Text.hexValue? c).isSome = true) :
    ¬ IsControl c := by
  have hrange : (48 ≤ c.toNat ∧ c.toNat ≤ 57) ∨ (97 ≤ c.toNat ∧ c.toNat ≤ 102) ∨
      (65 ≤ c.toNat ∧ c.toNat ≤ 70) := by
    unfold Text.hexValue? at h
    split_ifs at h with hdigit hlower hupper
    · exact .inl hdigit
    · exact .inr (.inl hlower)
    · exact .inr (.inr hupper)
    · cases h
  rw [IsControl]
  omega

theorem not_isControl_escapeInString (c : Char) : ∀ d ∈ escapeInString c, ¬ IsControl d := by
  have hbackslash : ¬ IsControl '\\' := by decide
  obtain ⟨e, he, hsimple⟩ | ⟨-, he⟩ | ⟨he, -, -, hc⟩ := escapeInString_cases c
  · rw [he, List.forall_mem_cons, List.forall_mem_singleton]
    exact ⟨hbackslash, not_isControl_of_simple? hsimple⟩
  · rw [he, List.forall_mem_cons, List.forall_mem_cons]
    refine ⟨hbackslash, by decide, ?_⟩
    intro d hd
    exact not_isControl_of_hexValue? (Text.isSome_hexValue?_of_mem_hex d hd)
  · rw [he, List.forall_mem_singleton]
    exact hc

theorem not_isControl_quoteString (cs : List Char) : ∀ c ∈ quoteString cs, ¬ IsControl c := by
  have hquote : ¬ IsControl '\x22' := by decide
  rw [quoteString, List.cons_append, List.forall_mem_cons, List.forall_mem_append,
    List.forall_mem_singleton]
  refine ⟨hquote, ?_, hquote⟩
  intro d hd
  obtain ⟨c, -, hd⟩ := List.mem_flatMap.1 hd
  exact not_isControl_escapeInString c d hd

/-! ## Finding the closing quote -/

namespace Token

theorem afterQuote?_escape (e : Char) (rest : List Char) :
    afterQuote? ('\\' :: e :: rest) =
      (afterQuote? rest).map fun (s, r) => ('\\' :: e :: s, r) := by
  rw [afterQuote?]

theorem afterQuote?_plain {c : Char} (hb : c ≠ '\\') (hq : c ≠ '\x22') (rest : List Char) :
    afterQuote? (c :: rest) = (afterQuote? rest).map fun (s, r) => (c :: s, r) := by
  rw [afterQuote?]
  · exact fun h => hq h
  · exact fun h _ => hb h
  · exact fun c' rest' h _ => hb h

theorem afterQuote?_plain_run {run : List Char} (hrun : ∀ c ∈ run, c ≠ '\\' ∧ c ≠ '\x22')
    (rest : List Char) :
    afterQuote? (run ++ rest) = (afterQuote? rest).map fun (s, r) => (run ++ s, r) := by
  induction run with
  | nil => simp
  | cons c run ih =>
    obtain ⟨hb, hq⟩ := hrun c List.mem_cons_self
    have hrest := ih fun d hd => hrun d (List.mem_cons_of_mem c hd)
    rw [List.cons_append, afterQuote?_plain hb hq, hrest, Option.map_map]
    rfl

theorem afterQuote?_escapeInString (c : Char) (rest : List Char) :
    afterQuote? (escapeInString c ++ rest) =
      (afterQuote? rest).map fun (s, r) => (escapeInString c ++ s, r) := by
  rcases escapeInString_cases c with ⟨e, he, _⟩ | ⟨_, he⟩ | ⟨he, hb, hq, _⟩
  · rw [he]
    exact afterQuote?_escape e rest
  · have hhex : ∀ d ∈ Text.hex 2 c.toNat, d ≠ '\\' ∧ d ≠ '\x22' := by
      intro d hd
      have hsome := Text.isSome_hexValue?_of_mem_hex d hd
      constructor
      · rintro rfl
        exact absurd hsome (by decide)
      · rintro rfl
        exact absurd hsome (by decide)
    rw [he, List.cons_append, List.cons_append, afterQuote?_escape, afterQuote?_plain_run hhex,
      Option.map_map]
    rfl
  · rw [he]
    exact afterQuote?_plain hb hq rest

theorem afterQuote?_escaped (cs rest : List Char) :
    afterQuote? (cs.flatMap escapeInString ++ '\x22' :: rest) =
      some (cs.flatMap escapeInString ++ ['\x22'], rest) := by
  induction cs with
  | nil => simp [afterQuote?]
  | cons c cs ih =>
    rw [List.flatMap_cons, List.append_assoc, afterQuote?_escapeInString, ih, Option.map_some,
      List.append_assoc]

end Token

/-! ## Resolving the escapes -/

namespace Escape

theorem resolve_plain {c : Char} (hc : c ≠ '\\') (rest : List Char) :
    resolve (c :: rest) = (resolve rest).map (c :: ·) := by
  rw [resolve.eq_def]
  simp only [if_neg hc]

theorem resolve_simple {e c : Char} (h : simple? e = some c) (rest : List Char) :
    resolve ('\\' :: e :: rest) = (resolve rest).map (c :: ·) := by
  rw [resolve, if_pos rfl]
  simp only [h]

theorem charOfCode_toNat (c : Char) : charOfCode c.toNat = .ok c := dif_pos c.valid

theorem resolve_code {c : Char} (hc : c.toNat < 256) (rest : List Char) :
    resolve ('\\' :: 'x' :: (Text.hex 2 c.toNat ++ rest)) = (resolve rest).map (c :: ·) := by
  have hlen : (Text.hex 2 c.toNat).length = 2 := Text.length_hex (by omega) hc
  have hchar : charOfDigits 'x' 2 (Text.hex 2 c.toNat ++ rest) = .ok c := by
    have hle : 2 ≤ (Text.hex 2 c.toNat ++ rest).length := by
      rw [List.length_append, hlen]
      omega
    have htake : (Text.hex 2 c.toNat ++ rest).take 2 = Text.hex 2 c.toNat := List.take_left' hlen
    simp only [charOfDigits, if_pos hle, htake, Text.ofHex?_hex, charOfCode_toNat]
  have hdrop : (Text.hex 2 c.toNat ++ rest).drop 2 = rest := List.drop_left' hlen
  have hsimple : simple? 'x' = none := rfl
  have hwidth : width? 'x' = some 2 := rfl
  rw [resolve, if_pos rfl]
  simp only [hsimple, hwidth, hchar, hdrop, bind, Except.bind, pure, Except.pure]
  cases resolve rest <;> rfl

theorem resolve_escapeInString (c : Char) (rest : List Char) :
    resolve (escapeInString c ++ rest) = (resolve rest).map (c :: ·) := by
  rcases escapeInString_cases c with ⟨e, he, hs⟩ | ⟨hc, he⟩ | ⟨he, hb, _⟩
  · rw [he]
    exact resolve_simple hs rest
  · rw [he]
    exact resolve_code hc rest
  · rw [he]
    exact resolve_plain hb rest

theorem resolve_escaped (cs : List Char) : resolve (cs.flatMap escapeInString) = .ok cs := by
  induction cs with
  | nil => rw [List.flatMap_nil, resolve]
  | cons c cs ih =>
    rw [List.flatMap_cons, resolve_escapeInString, ih]
    rfl

end Escape

theorem unescape_quoteString (cs : List Char) : unescape (quoteString cs) = .ok cs := by
  have hbody : ((quoteString cs).drop 1).dropLast = cs.flatMap escapeInString := by
    rw [quoteString, List.cons_append, List.drop_one, List.tail_cons, List.dropLast_concat]
  rw [unescape, hbody, Escape.resolve_escaped]

theorem quoteString_injective : Function.Injective quoteString := by
  intro cs cs' h
  have hread := unescape_quoteString cs'
  rw [← h, unescape_quoteString] at hread
  exact Except.ok.inj hread

end Formulary
