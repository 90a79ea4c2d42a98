import Formulary.Message.Json
import Formulary.Proofs.Number.Numeral

/-!
# Strings and numbers in JSON text

A string is read back character by character, whatever was escaped. A number in front of a text
that cannot continue it is read back from its parts: a whole one as its integer, any other as the
double nearest to its decimal.
-/
namespace Formulary.Message

open Text (hex ofHex? Stops stops_nil stops_cons takeWhile_run dropWhile_run)

/-! ## Strings -/

theorem exists_hex_four {n : Nat} (h : n < 0x10000) :
    ∃ a b c d, hex 4 n = [a, b, c, d] ∧ ofHex? [a, b, c, d] = some n := by
  have hlen : (hex 4 n).length = 4 := Text.length_hex (by omega) h
  have hval := Text.ofHex?_hex 4 n
  match hex 4 n, hlen, hval with
  | [a, b, c, d], _, hval => exact ⟨a, b, c, d, rfl, hval⟩

theorem readChars_code {n : Nat} (h : n < 0x10000) (hs : ¬ (0xD800 ≤ n ∧ n < 0xE000))
    (rest : List Char) :
    readChars ('\\' :: 'u' :: hex 4 n ++ rest) =
      (readChars rest).map fun (s, r) => (Char.ofNat n :: s, r) := by
  obtain ⟨a, b, c, d, hhex, hval⟩ := exists_hex_four h
  simp only [hhex, List.cons_append, List.nil_append]
  rw [readChars]
  simp only [hval, if_neg hs]

theorem readChars_pair {high low : Nat} {ch : Char} (hp : pair? high low = some ch)
    (rest : List Char) :
    readChars ('\\' :: 'u' :: hex 4 high ++ ('\\' :: 'u' :: hex 4 low ++ rest)) =
      (readChars rest).map fun (s, r) => (ch :: s, r) := by
  have hrange : 0xD800 ≤ high ∧ high < 0xDC00 ∧ 0xDC00 ≤ low ∧ low < 0xE000 := by
    by_contra hc
    rw [pair?, if_neg hc] at hp
    cases hp
  obtain ⟨a, b, c, d, hhigh, hhighVal⟩ := exists_hex_four (n := high) (by omega)
  obtain ⟨e, f, g, h, hlow, hlowVal⟩ := exists_hex_four (n := low) (by omega)
  simp only [hhigh, hlow, List.cons_append, List.nil_append]
  rw [readChars]
  have hs : 0xD800 ≤ high ∧ high < 0xE000 := by omega
  simp only [hhighVal, if_pos hs, hlowVal, hp, bind, Option.bind]
  cases readChars rest <;> rfl

theorem readChars_writeCode (c : Char) (rest : List Char) :
    readChars (writeCode c.toNat ++ rest) =
      (readChars rest).map fun (s, r) => (c :: s, r) := by
  have hvalid : c.toNat < 0xD800 ∨ 0xDFFF < c.toNat ∧ c.toNat < 0x110000 := c.valid
  by_cases hbasic : c.toNat < 0x10000
  · rw [writeCode, if_pos hbasic, readChars_code hbasic (by omega), Char.ofNat_toNat]
  · have hpair : pair? (0xD800 + (c.toNat - 0x10000) / 0x400)
        (0xDC00 + (c.toNat - 0x10000) % 0x400) = some c := by
      have hcode : 0x10000 + (0xD800 + (c.toNat - 0x10000) / 0x400 - 0xD800) * 0x400 +
          (0xDC00 + (c.toNat - 0x10000) % 0x400 - 0xDC00) = c.toNat := by
        omega
      rw [pair?, if_pos (by omega), hcode, Char.ofNat_toNat]
    rw [writeCode, if_neg hbasic, List.append_assoc]
    exact readChars_pair hpair rest

theorem readChars_plain {c : Char} (hq : c ≠ '\x22') (hb : c ≠ '\\') (hc : ' ' ≤ c)
    (rest : List Char) :
    readChars (c :: rest) = (readChars rest).map fun (s, r) => (c :: s, r) := by
  have hcontrol : ¬ (c.toNat < 0x20 ∨ c = '\\') := by
    have hle : 0x20 ≤ c.toNat := hc
    rintro (h | h)
    · omega
    · exact hb h
  rw [readChars.eq_def]
  split
  next h => cases h
  next h => cases h; exact absurd rfl hq
  next h => cases h; exact absurd rfl hb
  next h => cases h; exact absurd rfl hb
  next h =>
    cases h
    rw [if_neg hcontrol]

theorem readChars_simpleEscape {e c : Char} (hu : e ≠ 'u') (he : simpleEscape? e = some c)
    (rest : List Char) :
    readChars ('\\' :: e :: rest) = (readChars rest).map fun (s, r) => (c :: s, r) := by
  rw [readChars.eq_def]
  split
  next h => cases h
  next h => cases h
  next h => cases h; exact absurd rfl hu
  next h =>
    cases h
    rw [he]
    cases readChars rest <;> rfl
  next hne h => cases h; exact (hne _ _ rfl rfl).elim

theorem readChars_writeChar (c : Char) (rest : List Char) :
    readChars (writeChar c ++ rest) = (readChars rest).map fun (s, r) => (c :: s, r) := by
  rw [writeChar]
  split
  next h => rcases h with rfl | rfl <;> exact readChars_simpleEscape (by decide) rfl rest
  split
  next h => subst h; exact readChars_simpleEscape (by decide) rfl rest
  split
  next h => subst h; exact readChars_simpleEscape (by decide) rfl rest
  split
  next h => subst h; exact readChars_simpleEscape (by decide) rfl rest
  split
  next h => subst h; exact readChars_simpleEscape (by decide) rfl rest
  split
  next h => subst h; exact readChars_simpleEscape (by decide) rfl rest
  split
  next hquote _ _ _ _ _ h =>
    rw [not_or] at hquote
    exact readChars_plain hquote.1 hquote.2 h.1 rest
  next => exact readChars_writeCode c rest

/-- The characters of a written string are read back up to its closing quote. -/
theorem readChars_flatMap (cs rest : List Char) :
    readChars (cs.flatMap writeChar ++ '\x22' :: rest) = some (cs, rest) := by
  induction cs with
  | nil => rw [List.flatMap_nil, List.nil_append, readChars]
  | cons c cs ih =>
    rw [List.flatMap_cons, List.append_assoc, readChars_writeChar, ih, Option.map_some]

theorem readText_flatMap (cs rest : List Char) :
    readText (cs.flatMap writeChar ++ '\x22' :: rest) = .ok (cs, rest) := by
  rw [readText, readChars_flatMap]

/-! ## Numbers -/

/-- The characters that may follow a value: white space, a comma or a closing bracket. -/
def isEnd (c : Char) : Bool := isSpace c || c == ',' || c == ']' || c == '\x7d'

/-- The text does not continue a value that stands before it. -/
def Ends (rest : List Char) : Prop := ∀ c ∈ rest.head?, isEnd c = true

theorem ends_cons {c : Char} {cs : List Char} : Ends (c :: cs) ↔ isEnd c = true := by
  simp [Ends]

theorem Ends.stops {p : Char → Bool} {rest : List Char} (h : Ends rest)
    (hp : ∀ c, isEnd c = true → p c = false) : Stops p rest :=
  fun c hc => hp c (h c hc)

theorem isEnd_iff {c : Char} : isEnd c = true ↔
    c = ' ' ∨ c = '\t' ∨ c = '\n' ∨ c = '\r' ∨ c = ',' ∨ c = ']' ∨ c = '\x7d' := by
  simp only [isEnd, isSpace, Bool.or_eq_true, beq_iff_eq, or_assoc]

theorem Ends.stops_isDigit {rest : List Char} (h : Ends rest) : Stops Char.isDigit rest := by
  apply h.stops
  intro c hc
  rcases isEnd_iff.1 hc with rfl | rfl | rfl | rfl | rfl | rfl | rfl <;> rfl

theorem readFraction_of_stops {cs : List Char} (h : Stops (· == '.') cs) :
    readFraction cs = ([], cs) := by
  rw [readFraction.eq_def]
  split
  next => cases stops_cons.1 h
  next => rfl

theorem readExponent_of_stops {cs : List Char} (h : Stops (fun c => c == 'e' || c == 'E') cs) :
    readExponent cs = (none, cs) := by
  cases cs with
  | nil => rfl
  | cons c cs => simp [readExponent, stops_cons.1 h]

theorem readExponent_mark (negative : Bool) (ds : List Char) {rest : List Char} (hne : ds ≠ [])
    (hds : ∀ c ∈ ds, c.isDigit = true) (hrest : Stops Char.isDigit rest) :
    readExponent ('e' :: (if negative then '-' else '+') :: (ds ++ rest)) =
      (some (if negative then -(Nat.ofDigitChars 10 ds 0 : Int) else Nat.ofDigitChars 10 ds 0),
        rest) := by
  cases negative <;>
    simp [readExponent, takeWhile_run hds hrest, dropWhile_run hds hrest, hne]

end Formulary.Message

namespace Formulary.Numeral.Parts

open Message (Ends readFraction readFraction_of_stops readExponent readExponent_of_stops
  readExponent_mark readNumber readWord wholeDigits isEnd_iff)
open Text (Stops stops_cons takeWhile_run dropWhile_run)

variable (p : Parts) {limit : DigitLimit} {rest : List Char}

/-- What follows the digits of a number: a mark if there is one, or the text behind. -/
theorem stops_power_append {q : Char → Bool} (he : q 'e' = false) (h : Stops q rest) :
    Stops q (p.power ++ rest) := by
  cases hp : p.power? with
  | none => rwa [power_none hp, List.nil_append]
  | some m =>
    rw [power_some hp, List.cons_append, stops_cons]
    exact he

theorem readFraction_point (h : Ends rest) :
    readFraction (p.point ++ (p.power ++ rest)) = (p.fraction, p.power ++ rest) := by
  by_cases hf : p.fraction = []
  · have hdot : Stops (· == '.') (p.power ++ rest) := by
      refine p.stops_power_append rfl (h.stops fun c hc => ?_)
      rcases isEnd_iff.1 hc with rfl | rfl | rfl | rfl | rfl | rfl | rfl <;> rfl
    rw [point, if_pos hf, List.nil_append, readFraction_of_stops hdot, hf]
  · have hdigit : Stops Char.isDigit (p.power ++ rest) :=
      p.stops_power_append rfl h.stops_isDigit
    rw [point, if_neg hf, List.cons_append]
    simp [readFraction, takeWhile_run p.isDigit_fraction hdigit,
      dropWhile_run p.isDigit_fraction hdigit, hf]

theorem readExponent_power (h : Ends rest) : readExponent (p.power ++ rest) = (p.power?, rest) := by
  cases hp : p.power? with
  | none =>
    rw [power_none hp, List.nil_append]
    refine readExponent_of_stops (h.stops fun c hc => ?_)
    rcases isEnd_iff.1 hc with rfl | rfl | rfl | rfl | rfl | rfl | rfl <;> rfl
  | some m =>
    have hmark := readExponent_mark (m < 0) ((Nat.toDigits 10 m.natAbs).leftpad 2 '0')
      (by simp [List.leftpad]) (isDigit_leftpad_toDigits 2 m.natAbs) h.stops_isDigit
    rw [ofDigitChars_leftpad_toDigits] at hmark
    simp only [decide_eq_true_eq] at hmark
    rw [power_some hp, List.cons_append, List.cons_append, hmark]
    have hm : (if m < 0 then -(m.natAbs : Int) else m.natAbs) = m := by
      split <;> omega
    rw [hm]

/-- The digits before the point are found whole: a number that starts with a zero has no others. -/
theorem readNumber_whole {tail : List Char} (h : Stops Char.isDigit tail) {fraction : List Char}
    {power? : Option Int} {r₁ r₂ : List Char} (hf : readFraction tail = (fraction, r₁))
    (he : readExponent r₁ = (power?, r₂)) :
    readNumber limit p.negative (p.whole ++ tail) =
      let n := Nat.ofDigitChars 10 (p.whole ++ fraction) 0
      if fraction.isEmpty && power?.isNone then
        if limit.admits p.whole then .ok (.int (if p.negative then -(n : Int) else n), r₂)
        else .error .tooManyDigits
      else
        .ok (.double (.ofDecimal .double ⟨p.negative, n, power?.getD 0 - fraction.length⟩),
          r₂) := by
  rcases p.leading with hzero | hlead
  · simp [readNumber, wholeDigits, hzero, hf, he]
  · obtain ⟨c, cs, hw⟩ := List.exists_cons_of_ne_nil p.whole_ne_nil
    have hc : c ≠ '0' := by
      rintro rfl
      exact hlead (by rw [hw, List.head?_cons])
    have hrun := takeWhile_run p.isDigit_whole h
    rw [hw, List.cons_append] at hrun
    simp [readNumber, wholeDigits, hw, hc, hrun, hf, he]

theorem readNumber_unsigned (h : Ends rest)
    (hlimit : p.IsWhole → limit.admits p.whole = true) :
    readNumber limit p.negative (p.unsigned ++ rest) =
      .ok (if p.IsWhole then .int p.integer else .double (.ofDecimal .double p.decimal),
        rest) := by
  have hstops : Stops Char.isDigit (p.point ++ (p.power ++ rest)) := by
    rw [point]
    split
    · exact p.stops_power_append rfl h.stops_isDigit
    · exact stops_cons.2 rfl
  rw [unsigned, List.append_assoc, List.append_assoc,
    p.readNumber_whole hstops (p.readFraction_point h) (p.readExponent_power h)]
  by_cases hw : p.IsWhole
  · simp [if_pos hw, hw.1, hw.2, hlimit hw, integer]
  · have hcond : ¬ (p.fraction.isEmpty && p.power?.isNone) = true := by
      simpa [IsWhole] using hw
    simp only [if_neg hcond, if_neg hw, decimal]

theorem readWord_chars (h : Ends rest) (hlimit : p.IsWhole → limit.admits p.whole = true) :
    readWord limit (p.chars ++ rest) =
      .ok (if p.IsWhole then .int p.integer else .double (.ofDecimal .double p.decimal),
        rest) := by
  rw [← p.readNumber_unsigned h hlimit]
  obtain ⟨c, cs, hun, hc⟩ := p.unsigned_eq_cons
  have hne : ∀ d : Char, d.isDigit = false → c ≠ d := by
    rintro d hd rfl
    rw [hc] at hd
    cases hd
  cases hn : p.negative with
  | false =>
    simp [chars, hn, hun, readWord, hne 'n' rfl, hne 't' rfl, hne 'f' rfl, hne 'N' rfl,
      hne 'I' rfl, hne '-' rfl]
  | true => simp [chars, hn, hun, readWord, hne 'I' rfl]

end Formulary.Numeral.Parts

namespace Formulary.Message

variable {limit : DigitLimit} {rest : List Char}

theorem readWord_intText {n : Int} (hn : limit.admitsInt n = true) (h : Ends rest) :
    readWord limit (intText n ++ rest) = .ok (.int n, rest) := by
  have hwhole : limit.admits (Numeral.Parts.ofInt n).whole = true := hn
  rw [← Numeral.Parts.chars_ofInt, Numeral.Parts.readWord_chars _ h fun _ => hwhole,
    if_pos (Numeral.Parts.isWhole_ofInt n), Numeral.Parts.integer_ofInt]

/-- A finite double is written with a point or a power of ten, so it is not read as an integer. -/
theorem exists_parts_json (s : Bool) (r : Fin FloatFormat.double.count) :
    ∃ p : Numeral.Parts, p.chars = Layout.json.byValue (.finite s r : Double) ∧ ¬ p.IsWhole ∧
      Binary.ofDecimal .double p.decimal = .finite s r := by
  obtain ⟨p, hchars, hsame, hwhole⟩ := Layout.exists_parts .json
    (Binary.exact .double s r).magnitude (Binary.shortest .double s r)
  have hread := hsame.ofDecimal_eq .double
  rw [Binary.ofDecimal_shortest] at hread
  exact ⟨p, hchars, fun hp => absurd (hwhole hp).1 (by decide), hread⟩

theorem readWord_double (x : Double) (h : Ends rest) :
    readWord limit (Layout.json.byValue x ++ rest) = .ok (.double x, rest) := by
  cases x with
  | nan => rfl
  | infinity s => cases s <;> rfl
  | finite s r =>
    obtain ⟨p, hchars, hwhole, hread⟩ := exists_parts_json s r
    rw [← hchars, p.readWord_chars h (absurd · hwhole), if_neg hwhole, hread]

end Formulary.Message
