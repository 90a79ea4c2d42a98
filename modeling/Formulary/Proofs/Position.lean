import Formulary.Position
import Mathlib.Data.List.Induction
import Mathlib.Data.List.TakeWhile

/-!
# Positions and the text before them

The line index looks a position up among the offsets at which lines start. The position can also
be seen in the text before it, by its newlines and by what follows the last of them; so text that
is put in front moves a position down by its lines, and text that is put behind does not move it.
Of two positions of a text, the one with less text before it comes first.
-/
namespace Formulary

namespace Position

/-- The position of what follows a text. -/
def behind (file : String) (before : List Char) : Position :=
  ⟨file, before.count '\n' + 1, (before.reverse.takeWhile (· != '\n')).length + 1⟩

/-- The position that lies a number of lines further down, in the same column. -/
def down (n : Nat) (p : Position) : Position := { p with line := p.line + n }

/-- A newline starts a line of its own, and only the lines of the text in front of it are added. -/
theorem behind_append_newline (file : String) (before rest : List Char) :
    behind file (before ++ '\n' :: rest) = (behind file rest).down (1 + before.count '\n') := by
  have hline : (before ++ '\n' :: rest).count '\n' + 1 =
      rest.count '\n' + 1 + (1 + before.count '\n') := by
    rw [List.count_append, List.count_cons_self]
    omega
  have hcolumn : ((before ++ '\n' :: rest).reverse.takeWhile (· != '\n')) =
      rest.reverse.takeWhile (· != '\n') := by
    rw [List.reverse_append, List.reverse_cons, List.append_assoc, List.takeWhile_append]
    split
    next h =>
      have hall : rest.reverse.takeWhile (· != '\n') = rest.reverse :=
        (List.takeWhile_prefix _).eq_of_length h
      simp [hall]
    next => rfl
  simp only [behind, down, hline, hcolumn]

/-- The position is on an earlier line, or further left on the same one. -/
def Before (p q : Position) : Prop := p.line < q.line ∨ p.line = q.line ∧ p.column < q.column

theorem Before.ne {p q : Position} (h : p.Before q) : p ≠ q := by
  rintro rfl
  rcases h with h | ⟨-, h⟩ <;> exact lt_irrefl _ h

/-- A position lies before all that follow it in the text. -/
theorem behind_before (file : String) (before : List Char) {rest : List Char} (h : rest ≠ []) :
    (behind file before).Before (behind file (before ++ rest)) := by
  by_cases hnewline : '\n' ∈ rest
  · left
    have hpos : 0 < rest.count '\n' := List.count_pos_iff.2 hnewline
    simp only [behind, List.count_append]
    omega
  · right
    have hcount : rest.count '\n' = 0 := List.count_eq_zero.2 hnewline
    have hrun : ∀ c ∈ rest.reverse, (c != '\n') = true := by
      intro c hc
      rw [bne_iff_ne]
      rintro rfl
      exact hnewline (List.mem_reverse.1 hc)
    have hlength : 0 < rest.length := List.length_pos_iff.2 h
    simp only [behind, List.count_append, List.reverse_append,
      List.takeWhile_append_of_pos hrun, List.length_append, List.length_reverse]
    omega

end Position

namespace LineIndex

theorem lt_of_mem_startsFrom {offset start : Nat} {cs : List Char}
    (h : start ∈ startsFrom offset cs) : offset < start := by
  induction cs generalizing offset with
  | nil => cases h
  | cons c cs ih =>
    rw [startsFrom] at h
    split at h
    · rcases List.mem_cons.1 h with rfl | h
      · exact Nat.lt_succ_self offset
      · exact Nat.lt_of_succ_lt (ih h)
    · exact Nat.lt_of_succ_lt (ih h)

/-- The lines that start at or before an offset are those of the text before it. -/
theorem takeWhile_startsFrom (offset n : Nat) (cs : List Char) :
    (startsFrom offset cs).takeWhile (· ≤ offset + n) = startsFrom offset (cs.take n) := by
  induction cs generalizing offset n with
  | nil => simp [startsFrom]
  | cons c cs ih =>
    cases n with
    | zero =>
      have hlate : ∀ start ∈ startsFrom offset (c :: cs), ¬ start ≤ offset := fun start h =>
        Nat.not_le.2 (lt_of_mem_startsFrom h)
      rw [List.take_zero, startsFrom, List.takeWhile_eq_nil_iff]
      intro hpos hle
      exact hlate _ (List.get_mem _ _) (of_decide_eq_true hle)
    | succ n =>
      have hrest := ih (offset + 1) n
      rw [Nat.add_right_comm, Nat.add_assoc] at hrest
      rw [List.take_succ_cons, startsFrom, startsFrom]
      split
      · rw [List.takeWhile_cons_of_pos (by simp), hrest]
      · exact hrest

theorem length_startsFrom (offset : Nat) (cs : List Char) :
    (startsFrom offset cs).length = cs.count '\n' := by
  induction cs generalizing offset with
  | nil => rfl
  | cons c cs ih =>
    rw [startsFrom]
    split
    next h => rw [h, List.length_cons, ih, List.count_cons_self]
    next h => rw [ih, List.count_cons_of_ne h]

theorem startsFrom_concat (offset : Nat) (cs : List Char) (c : Char) :
    startsFrom offset (cs ++ [c]) =
      startsFrom offset cs ++ if c = '\n' then [offset + cs.length + 1] else [] := by
  induction cs generalizing offset with
  | nil => simp [startsFrom]
  | cons d cs ih =>
    have hlen : offset + 1 + cs.length + 1 = offset + (d :: cs).length + 1 := by
      rw [List.length_cons]
      omega
    rw [List.cons_append, startsFrom, startsFrom, ih, hlen]
    split <;> rfl

/-- The last line starts as many characters before the end as follow the last newline. -/
theorem getLastD_startsFrom (cs : List Char) :
    (startsFrom 0 cs).getLastD 0 + (cs.reverse.takeWhile (· != '\n')).length = cs.length := by
  induction cs using List.reverseRecOn with
  | nil => rfl
  | append_singleton cs c ih =>
    rw [startsFrom_concat, List.reverse_append, List.reverse_singleton, List.singleton_append]
    by_cases hc : c = '\n'
    · simp [hc]
    · have hrun : (c != '\n') = true := bne_iff_ne.2 hc
      rw [if_neg hc, List.append_nil, List.takeWhile_cons, if_pos hrun]
      simp only [List.length_cons, List.length_append, List.length_nil]
      omega

/-- The line index and the text before an offset give the same position. -/
theorem position_ofSource (file : String) {source : List Char} {offset : Nat}
    (h : offset ≤ source.length) :
    (ofSource file source).position offset = .behind file (source.take offset) := by
  have hstarts : (ofSource file source).starts.takeWhile (· ≤ offset) =
      0 :: startsFrom 0 (source.take offset) := by
    have := takeWhile_startsFrom 0 offset source
    rw [Nat.zero_add] at this
    rw [ofSource, List.takeWhile_cons_of_pos (by simp), this]
  have hlast := getLastD_startsFrom (source.take offset)
  rw [List.length_take, Nat.min_eq_left h] at hlast
  simp only [position, hstarts, List.length_cons, length_startsFrom, List.getLastD_cons,
    Position.behind, Position.mk.injEq, true_and]
  exact ⟨rfl, by omega⟩

theorem position_append (file : String) {source : List Char} {offset : Nat}
    (h : offset ≤ source.length) (rest : List Char) :
    (ofSource file (source ++ rest)).position offset = (ofSource file source).position offset := by
  have hlong : offset ≤ (source ++ rest).length := by
    rw [List.length_append]
    omega
  rw [position_ofSource file hlong, position_ofSource file h, List.take_append_of_le_length h]

theorem position_append_newline (file : String) (before : List Char) {source : List Char}
    {offset : Nat} (h : offset ≤ source.length) :
    (ofSource file (before ++ '\n' :: source)).position (offset + (before.length + 1)) =
      ((ofSource file source).position offset).down (1 + before.count '\n') := by
  have hlong : offset + (before.length + 1) ≤ (before ++ '\n' :: source).length := by
    rw [List.length_append, List.length_cons]
    omega
  have htake : (before ++ '\n' :: source).take (offset + (before.length + 1)) =
      before ++ '\n' :: source.take offset := by
    rw [Nat.add_comm offset, Nat.add_assoc, List.take_length_add_append, Nat.add_comm 1,
      List.take_succ_cons]
  rw [position_ofSource file hlong, htake, position_ofSource file h,
    Position.behind_append_newline]

end LineIndex

end Formulary
