import Formulary.Message.Error
import Formulary.Proofs.Outcome

/-!
# Texts with an integer that is too long

Besides text that is no JSON, a document is refused only for an integer with too many digits, and
such a document has a run of that many digits. Every reader takes its value off the front of the
text, so what it finds is found in the whole text.
-/
namespace Formulary.Message

variable {limit : DigitLimit} {cs ds : List Char}

/-- The text has a run of digits that is beyond the limit. -/
def LongRun (limit : DigitLimit) (cs : List Char) : Prop :=
  ∃ ds, ds <:+: cs ∧ (∀ c ∈ ds, c.isDigit = true) ∧ limit.admits ds = false

theorem LongRun.of_suffix (h : LongRun limit cs) (hs : cs <:+ ds) : LongRun limit ds := by
  obtain ⟨run, hrun, hdigits, hlong⟩ := h
  exact ⟨run, hrun.trans hs.isInfix, hdigits, hlong⟩

/-- A reader takes something off the front of the text, and it finds an integer to be too long only
where the text has a long run of digits. -/
structure Consumes {α : Type} (limit : DigitLimit) (cs : List Char)
    (x : Except ReadFault (α × List Char)) : Prop where
  suffix : ∀ a rest, x = .ok (a, rest) → rest <:+ cs
  longRun : x = .error .tooManyDigits → LongRun limit cs

namespace Consumes

variable {α β : Type} {x : Except ReadFault (α × List Char)}

theorem ok {a : α} {rest : List Char} (h : rest <:+ cs) : Consumes limit cs (.ok (a, rest)) := by
  refine ⟨fun a rest hx => ?_, nofun⟩
  cases hx
  exact h

theorem malformed : Consumes limit cs (.error .malformed : Except ReadFault (α × List Char)) :=
  ⟨nofun, nofun⟩

theorem of_suffix (h : Consumes limit cs x) (hs : cs <:+ ds) : Consumes limit ds x :=
  ⟨fun a rest hx => (h.suffix a rest hx).trans hs, fun hx => (h.longRun hx).of_suffix hs⟩

theorem bind {f : α × List Char → Except ReadFault (β × List Char)} (h : Consumes limit cs x)
    (hf : ∀ a rest, Consumes limit rest (f (a, rest))) : Consumes limit cs (x >>= f) := by
  cases x with
  | ok p => exact (hf p.1 p.2).of_suffix (h.suffix p.1 p.2 rfl)
  | error e =>
    refine ⟨nofun, fun hx => h.longRun ?_⟩
    cases hx
    rfl

theorem map (f : α → β) (h : Consumes limit cs x) :
    Consumes limit cs (x.map fun p => (f p.1, p.2)) := by
  cases x with
  | ok p => exact ok (h.suffix p.1 p.2 rfl)
  | error e =>
    refine ⟨nofun, fun hx => h.longRun ?_⟩
    cases hx
    rfl

end Consumes

/-! ## Strings and numbers -/

theorem suffix_of_skipSpace {c : Char} (h : skipSpace cs = c :: ds) : ds <:+ cs :=
  (List.suffix_cons c ds).trans (h ▸ List.dropWhile_suffix _)

theorem readChars_suffix {s rest : List Char} (h : readChars cs = some (s, rest)) :
    rest <:+ cs := by
  induction cs using readChars.induct generalizing s with
  | case1 => cases h
  | case2 rest =>
    cases h
    exact List.suffix_cons _ _
  | case3 a b c d rest hhex => simp [readChars, hhex] at h
  | case4 a b c d high hhex hs e f g k rest' ih =>
    simp only [readChars, hhex, if_pos hs, Option.bind_eq_bind, Option.bind_eq_some_iff] at h
    obtain ⟨low, -, ch, -, ⟨s', r⟩, hrest, h⟩ := h
    cases h
    exact (ih hrest).trans (List.suffix_append [_, _, _, _, _, _, _, _, _, _, _, _] rest')
  | case5 a b c d rest high hhex hs hno =>
    simp only [readChars, hhex, if_pos hs] at h
    cases h
  | case6 a b c d rest high hhex hs ih =>
    simp only [readChars, hhex, if_neg hs, Option.map_eq_some_iff] at h
    obtain ⟨⟨s', r⟩, hrest, h⟩ := h
    cases h
    exact (ih hrest).trans (List.suffix_append [_, _, _, _, _, _] rest)
  | case7 e rest hu ih =>
    rw [readChars.eq_4 _ _ hu] at h
    simp only [Option.bind_eq_bind, Option.bind_eq_some_iff] at h
    obtain ⟨ch, -, ⟨s', r⟩, hrest, h⟩ := h
    cases h
    exact (ih hrest).trans (List.suffix_append [_, _] rest)
  | case8 c rest hq hu hb hc =>
    rw [readChars.eq_5 _ _ hq hu hb, if_pos hc] at h
    cases h
  | case9 c rest hq hu hb hc ih =>
    rw [readChars.eq_5 _ _ hq hu hb, if_neg hc, Option.map_eq_some_iff] at h
    obtain ⟨⟨s', r⟩, hrest, h⟩ := h
    cases h
    exact (ih hrest).trans (List.suffix_cons c rest)

theorem readText_consumes (cs : List Char) : Consumes limit cs (readText cs) := by
  rw [readText]
  split
  next text h => exact .ok (readChars_suffix h)
  next => exact .malformed

theorem readFraction_suffix (cs : List Char) : (readFraction cs).2 <:+ cs := by
  unfold readFraction
  split
  · split
    · exact List.suffix_rfl
    · exact (List.dropWhile_suffix _).trans (List.suffix_cons _ _)
  · exact List.suffix_rfl

theorem readExponent_suffix (cs : List Char) : (readExponent cs).2 <:+ cs := by
  unfold readExponent
  split
  next c rest =>
    have hdigits : ∀ ds : List Char, ds <:+ rest → ds.dropWhile Char.isDigit <:+ c :: rest :=
      fun ds h => ((List.dropWhile_suffix _).trans h).trans (List.suffix_cons _ _)
    dsimp only
    split <;> split_ifs
    all_goals
      first
      | exact List.suffix_rfl
      | exact hdigits _ List.suffix_rfl
      | exact hdigits _ (List.suffix_cons _ _)
  next => exact List.suffix_rfl

theorem wholeDigits_isPrefix (cs : List Char) : wholeDigits cs <+: cs := by
  unfold wholeDigits
  split
  · exact ⟨_, rfl⟩
  · exact List.takeWhile_prefix _

theorem isDigit_of_mem_wholeDigits {c : Char} (h : c ∈ wholeDigits cs) : c.isDigit = true := by
  unfold wholeDigits at h
  split at h
  · rw [List.mem_singleton.1 h]
    rfl
  · exact List.all_eq_true.1 List.all_takeWhile c h

theorem readNumber_consumes (negative : Bool) (cs : List Char) :
    Consumes limit cs (readNumber limit negative cs) := by
  have hrest : (readExponent (readFraction (cs.drop (wholeDigits cs).length)).2).2 <:+ cs :=
    (readExponent_suffix _).trans ((readFraction_suffix _).trans (List.drop_suffix _ _))
  unfold readNumber
  dsimp only
  split
  · exact .malformed
  split
  · split
    · exact .ok hrest
    next hlong =>
      refine ⟨nofun, fun _ => ?_⟩
      exact ⟨wholeDigits cs, (wholeDigits_isPrefix cs).isInfix,
        fun _ => isDigit_of_mem_wholeDigits, Bool.eq_false_iff.2 hlong⟩
  · exact .ok hrest

theorem readWord_consumes (cs : List Char) : Consumes limit cs (readWord limit cs) := by
  unfold readWord
  split
  · exact .ok (List.suffix_append ['n', 'u', 'l', 'l'] _)
  · exact .ok (List.suffix_append ['t', 'r', 'u', 'e'] _)
  · exact .ok (List.suffix_append ['f', 'a', 'l', 's', 'e'] _)
  · exact .ok (List.suffix_append ['N', 'a', 'N'] _)
  · exact .ok (List.suffix_append ['I', 'n', 'f', 'i', 'n', 'i', 't', 'y'] _)
  · exact .ok (List.suffix_append ['-', 'I', 'n', 'f', 'i', 'n', 'i', 't', 'y'] _)
  · exact (readNumber_consumes _ _).of_suffix (List.suffix_cons _ _)
  · exact readNumber_consumes _ _

/-! ## Documents -/

variable {fuel : Nat}

theorem readItems_consumes (hvalue : ∀ cs, Consumes limit cs (readValue limit fuel cs))
    (hitems : ∀ cs, Consumes limit cs (readItems limit fuel cs)) (cs : List Char) :
    Consumes limit cs (readItems limit (fuel + 1) cs) := by
  rw [readItems]
  refine (hvalue cs).bind fun m r => ?_
  dsimp only
  split
  next h => exact .ok (suffix_of_skipSpace h)
  next r' h =>
    refine Consumes.bind ?_ ?_
    · exact (hitems _).of_suffix ((List.dropWhile_suffix _).trans (suffix_of_skipSpace h))
    · exact fun ms r => .ok List.suffix_rfl
  next => exact .malformed

theorem readFields_consumes (hvalue : ∀ cs, Consumes limit cs (readValue limit fuel cs))
    (hfields : ∀ cs, Consumes limit cs (readFields limit fuel cs)) (cs : List Char) :
    Consumes limit cs (readFields limit (fuel + 1) cs) := by
  have hskip : ∀ cs : List Char, skipSpace cs <:+ cs := fun _ => List.dropWhile_suffix _
  unfold readFields
  split
  next => exact .malformed
  next fuel' cs' hfuel =>
    cases hfuel
    refine ((readText_consumes cs').of_suffix (List.suffix_cons _ _)).bind fun k r => ?_
    dsimp only
    split
    next r' hcolon =>
      have hrest := (hskip r').trans (suffix_of_skipSpace hcolon)
      refine ((hvalue _).of_suffix hrest).bind fun m r => ?_
      dsimp only
      split
      next h => exact .ok (suffix_of_skipSpace h)
      next r' h =>
        refine Consumes.bind ?_ ?_
        · exact (hfields _).of_suffix ((hskip r').trans (suffix_of_skipSpace h))
        · exact fun fs r => .ok List.suffix_rfl
      next => exact .malformed
    next => exact .malformed
  next => exact .malformed

theorem readValue_consumes (hitems : ∀ cs, Consumes limit cs (readItems limit fuel cs))
    (hfields : ∀ cs, Consumes limit cs (readFields limit fuel cs)) (cs : List Char) :
    Consumes limit cs (readValue limit (fuel + 1) cs) := by
  have hskip : ∀ {c : Char} (cs : List Char), skipSpace cs <:+ c :: cs :=
    fun cs => (List.dropWhile_suffix _).trans (List.suffix_cons _ _)
  unfold readValue
  split
  next => exact .malformed
  next n rest hfuel =>
    exact ((readText_consumes rest).map fun s => str (String.ofList s)).of_suffix
      (List.suffix_cons _ _)
  next fuel' cs' hfuel =>
    cases hfuel
    split
    next h => exact .ok ((suffix_of_skipSpace h).trans (List.suffix_cons _ _))
    next => exact ((hitems (skipSpace cs')).map list).of_suffix (hskip cs')
  next fuel' cs' hfuel =>
    cases hfuel
    split
    next h => exact .ok ((suffix_of_skipSpace h).trans (List.suffix_cons _ _))
    next =>
      exact ((hfields (skipSpace cs')).map fun fs =>
        object (fs.foldl (fun fs f => setField fs f.1 f.2) [])).of_suffix (hskip cs')
  next => exact readWord_consumes _

theorem readers_consume (limit : DigitLimit) (fuel : Nat) :
    (∀ cs, Consumes limit cs (readValue limit fuel cs)) ∧
      (∀ cs, Consumes limit cs (readItems limit fuel cs)) ∧
      ∀ cs, Consumes limit cs (readFields limit fuel cs) := by
  induction fuel with
  | zero =>
    simp only [readValue, readItems, readFields]
    exact ⟨fun _ => .malformed, fun _ => .malformed, fun _ => .malformed⟩
  | succ fuel ih =>
    obtain ⟨hvalue, hitems, hfields⟩ := ih
    exact ⟨readValue_consumes hitems hfields, readItems_consumes hvalue hitems,
      readFields_consumes hvalue hfields⟩

/-- A document is refused for its digits only if it has a long run of them. -/
theorem longRun_of_read (h : read limit cs = .error .tooManyDigits) : LongRun limit cs := by
  rw [read, bind_error_iff] at h
  obtain h | ⟨⟨m, r⟩, -, h⟩ := h
  · exact (((readers_consume limit _).1 _).longRun h).of_suffix (List.dropWhile_suffix _)
  · dsimp only at h
    split_ifs at h
    cases h

end Formulary.Message
