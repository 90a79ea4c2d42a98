import Formulary.Proofs.Expr.PrintParse
import Formulary.Proofs.Expr.Written
import Formulary.Proofs.Number.Literal
import Formulary.Proofs.Number.Whole

/-!
# Canonical text

The text of an expression that was read is canonical: read and printed again, it stays as it is.
An integral double is written as an integer and an infinity as a symbol; where such a text is not
the text of the same double, it is still the text of an atom that is read back. This fails for
negative zero, for the doubles from `2 ^ 63` to `10 ^ 21`, whose digits are no 64-bit integer, and
for symbols whose name starts with a colon.
-/
namespace Formulary

open Text (isDigit)
open Token (IsWord isWordChar)

/-- The atoms whose text stays the same when it is read and printed again. -/
def Atom.Lasting : Atom → Prop
  | .double (.finite negative rank) =>
    (negative = true → rank.val ≠ 0) ∧
      (FloatFormat.double.units rank < 2 ^ 63 * 2 ^ FloatFormat.double.scale ∨
        10 ^ 21 * 2 ^ FloatFormat.double.scale ≤ FloatFormat.double.units rank)
  | .symbol s => s.name.toList.head? ≠ some ':'
  | _ => True

instance : DecidablePred Atom.Lasting
  | .double (.finite _ _) => inferInstanceAs (Decidable ((_ → _) ∧ (_ ∨ _)))
  | .symbol _ => inferInstanceAs (Decidable (_ ≠ _))
  | .bool _ | .int _ _ | .single _ | .double .nan | .double (.infinity _) | .bytes _ | .string _ =>
    .isTrue trivial

mutual

instance Expr.decidableLeaves {P : Atom → Prop} [DecidablePred P] :
    (e : Expr) → Decidable (e.Leaves P)
  | .atom _ a => inferInstanceAs (Decidable (P a))
  | .list _ es => decidableLeavesAll es

instance Expr.decidableLeavesAll {P : Atom → Prop} [DecidablePred P] :
    (es : List Expr) → Decidable (Expr.LeavesAll P es)
  | [] => .isTrue trivial
  | e :: es => @instDecidableAnd _ _ (decidableLeaves e) (decidableLeavesAll es)

end

/-! ## Symbols -/

namespace Numeral

/-- No numeral has a colon. -/
theorem isNumeral_of_colon {cs : List Char} (h : ':' ∈ cs) : isNumeral cs = false :=
  isNumeral_of_mem h (by decide)

end Numeral

namespace Symbol

/-- Whether a word opens a comment is seen before its first colon. -/
theorem comment_prefix_iff {space a b : List Char} :
    ['/', '*'] <+: space ++ ':' :: a ↔ ['/', '*'] <+: space ++ ':' :: b := by
  cases space with
  | nil => simp [List.cons_prefix_cons]
  | cons c space =>
    cases space with
    | nil => simp [List.cons_prefix_cons]
    | cons d space => simp [List.cons_prefix_cons]

theorem isWord_qualified {space name name' : List Char} (h : IsWord (space ++ ':' :: name'))
    (hname : ∀ c ∈ name, c ∈ name') : IsWord (space ++ ':' :: name) where
  ne_nil := by simp
  isWordChar c hc := by
    apply h.isWordChar
    rw [List.mem_append, List.mem_cons] at hc ⊢
    exact hc.imp id (Or.imp id (hname c))
  noComment := fun hpre => h.noComment (comment_prefix_iff.1 hpre)

theorem isWord_keyword {space name : List Char} (h : IsWord (space ++ ':' :: name)) :
    IsWord (':' :: name) where
  ne_nil := by simp
  isWordChar c hc := h.isWordChar c (List.mem_append_right space hc)
  noComment := by simp [List.cons_prefix_cons]

theorem readable_qualified {space name tail : List Char} (hword : IsWord (space ++ ':' :: tail))
    (hspace : ':' ∉ space) (htail : ∀ c ∈ name, c ∈ tail) (hname : name.head? ≠ some ':') :
    Readable ⟨String.ofList name, if space = [] then keywordSpace else String.ofList space⟩ := by
  generalize hspace' : (if space = [] then keywordSpace else String.ofList space) = space'
  have hne : space' ≠ "" := by
    subst hspace'
    split
    · decide
    next hnil => simpa [String.ofList_eq_empty_iff] using hnil
  have hfree : ':' ∉ space'.toList := by
    subst hspace'
    split
    · decide
    · simpa using hspace
  have hchars : chars ⟨String.ofList name, space'⟩ = ':' :: name ∨
      chars ⟨String.ofList name, space'⟩ = space ++ ':' :: name := by
    rw [chars_qualified hne, String.toList_ofList]
    by_cases hk : space' = keywordSpace
    · rw [if_pos hk]
      exact .inl rfl
    · rw [if_neg hk, ← hspace']
      split at hspace'
      · exact absurd hspace'.symm hk
      next hnil =>
        rw [if_neg hnil, String.toList_ofList]
        exact .inr rfl
  have hwords : IsWord (space ++ ':' :: name) := isWord_qualified hword htail
  refine ⟨?_, Numeral.isNumeral_of_colon ?_, .inr ⟨hne, hfree, by simpa using hname⟩⟩
  · rcases hchars with hchars | hchars <;> rw [hchars]
    · exact isWord_keyword hwords
    · exact hwords
  · rcases hchars with hchars | hchars <;> simp [hchars]

theorem readable_of_parse? {literal : List Char} {s : Symbol} (hword : IsWord literal)
    (hnumeral : Numeral.isNumeral literal = false) (h : parse? literal = some s)
    (hname : s.name.toList.head? ≠ some ':') : s.Readable := by
  cases parse?_eq_some_iff.1 h with
  | plain hcolon =>
    have hchars : chars ⟨String.ofList literal, ""⟩ = literal := by simp [chars]
    refine ⟨?_, ?_, .inl ⟨rfl, by simpa using hcolon⟩⟩
    · rwa [hchars]
    · rwa [hchars]
  | colon hspace hhead => exact readable_qualified hword hspace (fun c hc => hc) hhead
  | @colons space name hspace hne =>
    rw [String.toList_ofList] at hname
    have hreadable := readable_qualified hword hspace (fun c => List.mem_cons_of_mem ':') hname
    rwa [if_neg hne] at hreadable

end Symbol

/-! ## Doubles -/

namespace Atom

theorem readable_special {name : String} (h : name ∈ ["NaN", "+Inf", "-Inf"]) :
    Readable (.symbol ⟨name, ""⟩) := by
  simp only [List.mem_cons, List.not_mem_nil, or_false] at h
  rcases h with rfl | rfl | rfl
  all_goals
    exact ⟨⟨by decide, List.all_eq_true.1 (by decide), by decide⟩, by decide, by decide⟩

theorem readable_int {n : Nat} (h : n < 2 ^ 63) (s : Bool) :
    Readable (.int .int64 (if s then -(n : Int) else n)) := by
  refine ⟨rfl, ?_⟩
  cases s <;> simp [IntKind.contains, IntKind.min, IntKind.max] <;> omega

theorem intText_signed {n : Nat} (h : 0 < n) (s : Bool) :
    intText (if s then -(n : Int) else n) = (if s then ['-'] else []) ++ Nat.toDigits 10 n := by
  cases s with
  | false => simp [intText]
  | true => simp [intText, h]

theorem chars_zero : chars (.double (.finite false ⟨0, by decide +kernel⟩)) = intText 0 := by
  decide +kernel

theorem exists_readable_finite {s : Bool} {r : Fin FloatFormat.double.count}
    (h : Lasting (.double (.finite s r))) :
    ∃ a : Atom, a.Readable ∧ a.chars = chars (.double (.finite s r)) := by
  by_cases hshow : Layout.ShowsDouble (.finite s r)
  · exact ⟨.double (.finite s r), hshow, rfl⟩
  · obtain ⟨hzero, hsize⟩ := h
    simp only [Layout.ShowsDouble, not_or, not_not, not_le] at hshow
    obtain ⟨hint, hm⟩ := hshow
    have hlt : FloatFormat.double.units r < 2 ^ 63 * 2 ^ FloatFormat.double.scale := by
      apply hsize.resolve_right
      intro hlarge
      have := Binary.le_magnitude_shortest (s := s) hlarge
      omega
    rcases Nat.eq_zero_or_pos (FloatFormat.double.units r) with h0 | h0
    · have hr := FloatFormat.double.rank_eq_zero h0
      have hs : s = false := Bool.eq_false_iff.2 fun hs => hzero hs hr
      obtain rfl : r = ⟨0, by decide +kernel⟩ := Fin.ext hr
      exact ⟨.int .int64 0, ⟨rfl, rfl⟩, hs ▸ chars_zero.symm⟩
    · obtain ⟨n, htext, hn, hread⟩ := Layout.exists_digits_formula h0 hint hm
      refine ⟨_, readable_int (Binary.lt_two_pow_of_ofDecimal hread hlt) s, ?_⟩
      exact (intText_signed hn s).trans htext.symm

theorem exists_readable {a : Atom} (hwritten : a.Written) (h : a.Lasting) :
    ∃ a' : Atom, a'.Readable ∧ a'.chars = a.chars := by
  cases a with
  | int kind n => exact ⟨.int kind n, hwritten, rfl⟩
  | string s => exact ⟨.string s, trivial, rfl⟩
  | symbol s =>
    obtain ⟨literal, hword, hnumeral, hparse⟩ := hwritten
    exact ⟨.symbol s, Symbol.readable_of_parse? hword hnumeral hparse h, rfl⟩
  | double x =>
    cases x with
    | nan => exact ⟨.symbol ⟨"NaN", ""⟩, readable_special (by simp), rfl⟩
    | infinity s =>
      cases s with
      | false => exact ⟨.symbol ⟨"+Inf", ""⟩, readable_special (by simp), rfl⟩
      | true => exact ⟨.symbol ⟨"-Inf", ""⟩, readable_special (by simp), rfl⟩
    | finite s r => exact exists_readable_finite h
  | _ => cases hwritten

end Atom

namespace Expr

/-! ## Expressions -/

theorem exists_map_chars {P : Expr → Prop} {es : List Expr}
    (h : ∀ e ∈ es, ∃ e', P e' ∧ e'.chars = e.chars) :
    ∃ es' : List Expr, (∀ e ∈ es', P e) ∧ es'.map chars = es.map chars := by
  induction es with
  | nil => exact ⟨[], by simp, rfl⟩
  | cons e es ih =>
    obtain ⟨⟨e', he', hchars⟩, hes⟩ := List.forall_mem_cons.1 h
    obtain ⟨es', hes', hmap⟩ := ih hes
    refine ⟨e' :: es', List.forall_mem_cons.2 ⟨he', hes'⟩, ?_⟩
    rw [List.map_cons, List.map_cons, hchars, hmap]

theorem exists_readable {e : Expr} (hwritten : e.Leaves Atom.Written)
    (h : e.Leaves Atom.Lasting) : ∃ e' : Expr, e'.Readable ∧ e'.chars = e.chars := by
  induction e with
  | atom source a =>
    obtain ⟨a', ha', hchars⟩ := Atom.exists_readable (leaves_atom.1 hwritten) (leaves_atom.1 h)
    exact ⟨.atom source a', leaves_atom.2 ha', hchars⟩
  | list source es ih =>
    obtain ⟨es', hes', hchars⟩ := exists_map_chars fun e he =>
      ih e he (leaves_list.1 hwritten e he) (leaves_list.1 h e he)
    exact ⟨.list source es', leaves_list.2 hes', by rw [chars_list, chars_list, hchars]⟩

/-- The text of the expression that a text holds. -/
def reprint (file : String) (source : List Char) : Except ParseError (List Char) :=
  (parse file source).map chars

theorem reprint_of_readable (file : String) {e : Expr} (h : e.Readable) :
    reprint file e.chars = .ok e.chars := by
  obtain ⟨e', hparse, hbare⟩ := exists_parse_of_readable file h
  rw [reprint, hparse, Except.map, ← chars_bare e', hbare, chars_bare]

/-- The text of an expression that was read is read and printed as it is, unless the expression
holds an atom whose text does not last. -/
theorem reprint_chars {file : String} {source : List Char} {e : Expr}
    (h : parse file source = .ok e) (hlast : e.Leaves Atom.Lasting) (file' : String) :
    reprint file' e.chars = .ok e.chars := by
  obtain ⟨e', hreadable, hchars⟩ := exists_readable (written_of_parse h) hlast
  rw [← hchars]
  exact reprint_of_readable file' hreadable

theorem reprint_chars_mixed :
    let source := "(-300.0 ns::a (1e21 1e999 0.0 \"b\\n\") :k)".toList
    ∃ e, parse "" source = .ok e ∧ e.Leaves Atom.Lasting ∧ reprint "" e.chars = .ok e.chars := by
  intro source
  have hlasting : ((parse "" source).map fun e => decide (e.Leaves Atom.Lasting)) = .ok true := by
    decide +kernel
  cases h : parse "" source with
  | error cause =>
    rw [h] at hlasting
    cases hlasting
  | ok e =>
    rw [h] at hlasting
    have he : e.Leaves Atom.Lasting := by simpa [Except.map] using hlasting
    exact ⟨e, rfl, he, reprint_chars h he ""⟩

/-- Not every text that is printed is canonical: negative zero loses its sign, the digits of a
large integral double are no 64-bit integer, and of three colons in a row one is lost each time. -/
theorem not_reprint_fixed :
    (¬ ∀ source text, reprint "" source = .ok text → reprint "" text = .ok text) ∧
      (reprint "" "-0.0".toList = .ok "-0".toList ∧ reprint "" "-0".toList = .ok "0".toList) ∧
      (reprint "" "1e20".toList = .ok "100000000000000000000".toList ∧
        reprint "" "100000000000000000000".toList =
          .error (.tooLarge "100000000000000000000".toList)) ∧
      (reprint "" "a:::b".toList = .ok "a::b".toList ∧
        reprint "" "a::b".toList = .ok "a:b".toList) := by
  have hzero : reprint "" "-0.0".toList = .ok "-0".toList ∧
      reprint "" "-0".toList = .ok "0".toList := by decide +kernel
  refine ⟨?_, hzero, by decide +kernel, by decide +kernel⟩
  intro hfixed
  have := hfixed _ _ hzero.1
  rw [hzero.2] at this
  exact absurd this (by decide)

end Expr

end Formulary
