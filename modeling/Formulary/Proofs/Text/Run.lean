import Formulary.Text.Digit
import Mathlib.Tactic.Ring

/-!
# Runs of characters

A run of characters of a class ends where the class ends. The ten plain digits are digits of
every reader and have the same values in all of them. Hexadecimal text of a fixed width is read
as the number that was written.
-/
namespace Formulary.Text

/-- The text does not start with a character of the class. -/
def Stops (p : Char → Bool) (rest : List Char) : Prop := ∀ c ∈ rest.head?, p c = false

variable {p : Char → Bool}

@[simp] theorem stops_nil : Stops p [] := by simp [Stops]

@[simp] theorem stops_cons {c : Char} {cs : List Char} : Stops p (c :: cs) ↔ p c = false := by
  simp [Stops]

theorem takeWhile_of_stops {rest : List Char} (h : Stops p rest) : rest.takeWhile p = [] := by
  cases rest with
  | nil => rfl
  | cons c cs => simp [stops_cons.1 h]

theorem dropWhile_of_stops {rest : List Char} (h : Stops p rest) : rest.dropWhile p = rest := by
  cases rest with
  | nil => rfl
  | cons c cs => simp [stops_cons.1 h]

theorem stops_dropWhile (cs : List Char) : Stops p (cs.dropWhile p) := by
  intro c hc
  have h := List.head?_dropWhile_not p cs
  rw [Option.mem_def.1 hc] at h
  exact h

/-- A run in front of a text that stops it is taken whole and nothing more. -/
theorem takeWhile_run {run rest : List Char} (hrun : ∀ c ∈ run, p c = true) (hrest : Stops p rest) :
    (run ++ rest).takeWhile p = run := by
  rw [List.takeWhile_append_of_pos hrun, takeWhile_of_stops hrest, List.append_nil]

theorem dropWhile_run {run rest : List Char} (hrun : ∀ c ∈ run, p c = true) (hrest : Stops p rest) :
    (run ++ rest).dropWhile p = rest := by
  rw [List.dropWhile_append_of_pos hrun, dropWhile_of_stops hrest]

/-! ## Plain digits -/

theorem toNat_of_isDigit {c : Char} (h : c.isDigit = true) : 48 ≤ c.toNat ∧ c.toNat ≤ 57 := by
  simp only [Char.isDigit, Bool.and_eq_true, decide_eq_true_eq] at h
  exact h

theorem digitValue?_of_isDigit {c : Char} (h : c.isDigit = true) :
    digitValue? c = some (c.toNat - 48) := by
  obtain ⟨hlo, hhi⟩ := toNat_of_isDigit h
  have hc : 0x30 ≤ c.toNat ∧ c.toNat < 0x30 + 10 := by omega
  simp only [digitValue?, digitZeros, List.findSome?_cons, if_pos hc]

theorem isDigit_of_isDigit {c : Char} (h : c.isDigit = true) : isDigit c = true := by
  rw [isDigit, digitValue?_of_isDigit h, Option.isSome_some]

theorem digitsValue_of_isDigit {ds : List Char} (h : ∀ c ∈ ds, c.isDigit = true) :
    digitsValue ds = Nat.ofDigitChars 10 ds 0 := by
  have hfold : ∀ n, ds.foldl (fun n c => 10 * n + (digitValue? c).getD 0) n =
      Nat.ofDigitChars 10 ds n := by
    induction ds with
    | nil => intro n; rfl
    | cons c ds ih =>
      intro n
      have hc : c.isDigit = true := h c List.mem_cons_self
      rw [List.foldl_cons, digitValue?_of_isDigit hc, Nat.ofDigitChars_cons]
      exact ih (fun d hd => h d (List.mem_cons_of_mem c hd)) _
  exact hfold 0

theorem ofDigitChars_lt {ds : List Char} (h : ∀ c ∈ ds, c.isDigit = true) :
    Nat.ofDigitChars 10 ds 0 < 10 ^ ds.length := by
  induction ds with
  | nil => simp
  | cons c ds ih =>
    rw [List.forall_mem_cons] at h
    have hrest := ih h.2
    obtain ⟨hle, hge⟩ := toNat_of_isDigit h.1
    have hdigit : 10 * 0 + (c.toNat - '0'.toNat) ≤ 9 := by
      change 10 * 0 + (c.toNat - 48) ≤ 9
      omega
    rw [Nat.ofDigitChars_cons, Nat.ofDigitChars_eq_ofDigitChars_zero, List.length_cons,
      Nat.pow_succ]
    have hmul := Nat.mul_le_mul_left (10 ^ ds.length) hdigit
    omega

/-! ## Hexadecimal digits -/

theorem hexValue?_digitChar {d : Nat} (h : d < 16) : hexValue? d.digitChar = some d := by
  have hall : ∀ d : Fin 16, hexValue? d.val.digitChar = some d.val := by decide
  exact hall ⟨d, h⟩

theorem ofHex?_toDigits (n : Nat) : ofHex? (Nat.toDigits 16 n) = some n := by
  induction n using Nat.strong_induction_on with
  | _ n ih =>
    by_cases h : n < 16
    · rw [Nat.toDigits_of_lt_base h]
      simp [ofHex?, hexValue?_digitChar h]
    · have hlast : n % 16 < 16 := Nat.mod_lt n (by omega)
      have hfirst := ih (n / 16) (by omega)
      rw [ofHex?] at hfirst
      rw [Nat.toDigits_of_base_le (by omega) (by omega), ofHex?, List.foldl_append, hfirst]
      simp only [List.foldl_cons, List.foldl_nil, Option.bind_some, hexValue?_digitChar hlast,
        Option.map_some, Option.some.injEq]
      omega

theorem length_hex {width n : Nat} (hw : 0 < width) (h : n < 16 ^ width) :
    (hex width n).length = width := by
  have hle := (Nat.length_toDigits_le_iff (b := 16) (by omega) hw).2 h
  simp only [hex, List.leftpad, List.length_append, List.length_replicate]
  omega

theorem ofHex?_hex (width n : Nat) : ofHex? (hex width n) = some n := by
  have hzeros : ∀ k, (List.replicate k '0').foldl
      (fun n? c => n?.bind fun n => (hexValue? c).map (16 * n + ·)) (some 0) = some 0 := by
    intro k
    induction k with
    | zero => rfl
    | succ k ih =>
      rw [List.replicate_succ, List.foldl_cons]
      exact ih
  have hdigits := ofHex?_toDigits n
  rw [ofHex?] at hdigits
  rw [hex, List.leftpad, ofHex?, List.foldl_append, hzeros, hdigits]

theorem isSome_hexValue?_of_ofHex? {cs : List Char} {n : Nat} (h : ofHex? cs = some n) :
    ∀ c ∈ cs, (hexValue? c).isSome = true := by
  rw [ofHex?] at h
  generalize some 0 = start? at h
  induction cs generalizing start? with
  | nil => simp
  | cons c cs ih =>
    intro d hd
    rw [List.foldl_cons] at h
    rcases List.mem_cons.1 hd with rfl | hd
    · cases hv : hexValue? d with
      | some _ => rfl
      | none =>
        have hnone : (start?.bind fun n => (hexValue? d).map (16 * n + ·)) = none := by
          cases start? <;> simp [hv]
        have hfold : cs.foldl (fun n? c => n?.bind fun n => (hexValue? c).map (16 * n + ·)) none =
            none := by
          clear ih h hd
          induction cs with
          | nil => rfl
          | cons _ _ ih => exact ih
        rw [hnone, hfold] at h
        cases h
    · exact ih _ h d hd

theorem isSome_hexValue?_of_mem_hex {width n : Nat} :
    ∀ c ∈ hex width n, (hexValue? c).isSome = true :=
  isSome_hexValue?_of_ofHex? (ofHex?_hex width n)

end Formulary.Text
