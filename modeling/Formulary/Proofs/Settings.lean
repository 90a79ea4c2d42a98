import Formulary.Settings
import Mathlib.Data.List.Basic

/-!
# Settings are read back

The paths that are read from texts are those without empty steps and without steps to the same
place. Each of them is read back from its own text, and a setting that lists them is read back as
the same list.
-/
namespace Formulary

theorem not_mem_of_mem_splitOn (c : Char) (cs : List Char) : ∀ part ∈ cs.splitOn c, c ∉ part := by
  induction cs with
  | nil =>
    rw [List.splitOn_nil, List.forall_mem_singleton]
    exact List.not_mem_nil
  | cons d cs ih =>
    rw [List.splitOn_cons_eq_if_modifyHead]
    split_ifs with hd
    · exact List.forall_mem_cons.2 ⟨List.not_mem_nil, ih⟩
    · obtain ⟨first, rest, hparts⟩ := List.exists_cons_of_ne_nil (List.splitOn_ne_nil c cs)
      rw [hparts, List.forall_mem_cons] at ih
      rw [hparts, List.modifyHead_cons, List.forall_mem_cons, List.mem_cons, not_or]
      exact ⟨⟨fun hc => hd (beq_iff_eq.2 hc.symm), ih.1⟩, ih.2⟩

namespace Path

/-- Every step has a name, which leads somewhere and holds no slash. -/
structure Normal (p : Path) : Prop where
  isStep : ∀ s ∈ p.steps, isStep s = true
  noSlash : ∀ s ∈ p.steps, '/' ∉ s

theorem normal_ofChars (cs : List Char) : (ofChars cs).Normal where
  isStep _ hs := (List.mem_filter.1 hs).2
  noSlash s hs := not_mem_of_mem_splitOn '/' cs s (List.mem_filter.1 hs).1

variable {p : Path}

theorem Normal.ne_nil (h : p.Normal) {s : List Char} (hs : s ∈ p.steps) : s ≠ [] := by
  rintro rfl
  exact absurd (h.isStep _ hs) (by decide)

theorem ofChars_root (root : PathRoot) {cs : List Char} (h : cs.head? ≠ some '/') :
    ofChars (root.chars ++ cs) = ⟨root, (cs.splitOn '/').filter isStep⟩ := by
  have hstop : cs.takeWhile (· == '/') = [] := by
    cases cs with
    | nil => rfl
    | cons c cs =>
      rw [List.takeWhile_cons_of_neg]
      simpa using h
  cases root <;>
    simp [ofChars, PathRoot.chars, PathRoot.ofSlashes, hstop, List.splitOn_cons_eq_if_modifyHead,
      isStep]

/-- The steps of a path are found again between the slashes. -/
theorem Normal.splitOn_steps (h : p.Normal) :
    ((List.intercalate ['/'] p.steps).splitOn '/').filter Path.isStep = p.steps := by
  by_cases hsteps : p.steps = []
  · rw [hsteps]
    rfl
  · rw [List.splitOn_intercalate '/' h.noSlash hsteps, List.filter_eq_self]
    exact h.isStep

theorem Normal.head?_steps (h : p.Normal) :
    (List.intercalate ['/'] p.steps).head? ≠ some '/' := by
  cases hsteps : p.steps with
  | nil => simp
  | cons s ss =>
    have hs : s ∈ p.steps := by simp [hsteps]
    obtain ⟨c, cs, rfl⟩ := List.exists_cons_of_ne_nil (h.ne_nil hs)
    intro hc
    have hslash : c = '/' := by
      cases ss <;> simpa [List.intercalate_cons_cons] using hc
    exact h.noSlash _ hs (by simp [hslash])

/-- A path is read back from its text. -/
theorem ofChars_chars (h : p.Normal) : ofChars p.chars = p := by
  have hread := ofChars_root p.root h.head?_steps
  rw [h.splitOn_steps] at hread
  unfold chars
  split
  next hnone =>
    rw [hnone] at hread
    exact hread
  next => exact hread

theorem chars_ne_nil (p : Path) : p.chars ≠ [] := by
  unfold chars
  split
  · exact List.cons_ne_nil _ _
  next hne => exact hne

end Path

namespace Settings

/-- A setting that lists paths is read as these paths, if they hold no colon and no blanks at their
ends. -/
theorem paths_intercalate {ps : List Path} (hne : ps ≠ []) (hnormal : ∀ p ∈ ps, p.Normal)
    (hcolon : ∀ p ∈ ps, ':' ∉ p.chars) (htrim : ∀ p ∈ ps, Text.trim p.chars = p.chars)
    (defaults : List Path) :
    paths (some (String.ofList (List.intercalate [':'] (ps.map Path.chars)))) defaults = ps := by
  have hsplit : (List.intercalate [':'] (ps.map Path.chars)).splitOn ':' = ps.map Path.chars :=
    List.splitOn_intercalate ':' (List.forall_mem_map.2 hcolon) (by simpa using hne)
  have htrimmed : (ps.map Path.chars).map Text.trim = ps.map Path.chars := by
    rw [List.map_map]
    exact List.map_congr_left htrim
  have hkept : (ps.map Path.chars).filter (· != []) = ps.map Path.chars := by
    rw [List.filter_eq_self, List.forall_mem_map]
    exact fun p _ => bne_iff_ne.2 p.chars_ne_nil
  have hread : (ps.map Path.chars).map Path.ofChars = ps := by
    calc (ps.map Path.chars).map Path.ofChars
        = ps.map (Path.ofChars ∘ Path.chars) := List.map_map
      _ = ps.map id := List.map_congr_left fun p hp => Path.ofChars_chars (hnormal p hp)
      _ = ps := List.map_id ps
  rw [paths, Option.getD_some, String.toList_ofList]
  split
  next hnone =>
    have hempty : [] ∈ ps.map Path.chars := by
      rw [← hsplit, hnone, List.splitOn_nil]
      exact List.mem_singleton_self []
    obtain ⟨p, -, hp⟩ := List.mem_map.1 hempty
    exact absurd hp p.chars_ne_nil
  next => rw [hsplit, htrimmed, hkept, hread]

end Settings

end Formulary
