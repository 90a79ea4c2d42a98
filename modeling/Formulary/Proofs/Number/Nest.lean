import Formulary.Expr.Construct
import Formulary.Proofs.Outcome

/-!
# Shapes of nests

The shape of a rectangular nest counts its items, and converting the items keeps it. So a nest that
is shown because it is no single number always has a shape.
-/
namespace Formulary

namespace Nest

variable {α β ε : Type} {f : α → Except ε β}

@[elab_as_elim, induction_eliminator]
theorem induction {motive : Nest α → Prop} (leaf : ∀ a, motive (.leaf a))
    (row : ∀ items, (∀ n ∈ items, motive n) → motive (.row items)) (n : Nest α) : motive n :=
  @Nest.rec α motive (fun items => ∀ n ∈ items, motive n) leaf row
    (fun _ h => absurd h List.not_mem_nil)
    (fun _ _ hn hns => List.forall_mem_cons.2 ⟨hn, hns⟩) n

theorem shape?_row_eq_some_iff {items : List (Nest α)} {s : List Nat} :
    (row items).shape? = some s ↔ ∃ t, commonShape? items = some t ∧ items.length :: t = s := by
  rw [shape?, Option.map_eq_some_iff]

theorem commonShape?_cons {n : Nest α} {ns : List (Nest α)} (hne : ns ≠ []) {s : List Nat} :
    commonShape? (n :: ns) = some s ↔ n.shape? = some s ∧ commonShape? ns = some s := by
  obtain ⟨m, ms, rfl⟩ := List.exists_cons_of_ne_nil hne
  rw [commonShape?]
  · cases n.shape? with
    | none => simp
    | some t =>
      cases commonShape? (m :: ms) with
      | none => simp
      | some u =>
        by_cases htu : t = u
        · simp [htu]
        · simp only [Option.bind_eq_bind, Option.bind_some, if_neg htu]
          constructor
          · exact nofun
          · rintro ⟨ht, hu⟩
            exact absurd ((Option.some.inj ht).trans (Option.some.inj hu).symm) htu
  · exact nofun

/-- The nests of a row have a common shape exactly if each of them has it. -/
theorem commonShape?_eq_some_iff {items : List (Nest α)} (hne : items ≠ []) {s : List Nat} :
    commonShape? items = some s ↔ ∀ n ∈ items, n.shape? = some s := by
  induction items with
  | nil => exact absurd rfl hne
  | cons n ns ih =>
    rw [List.forall_mem_cons]
    by_cases hns : ns = []
    · rw [hns, commonShape?]
      simp
    · rw [commonShape?_cons hns, ih hns]

theorem leavesAll_eq (items : List (Nest α)) : leavesAll items = items.flatMap leaves := by
  induction items with
  | nil => rfl
  | cons n ns ih => rw [leavesAll, ih, List.flatMap_cons]

/-- The lengths of the rows multiply to the number of the items. -/
theorem length_leaves {n : Nest α} {s : List Nat} (h : n.shape? = some s) :
    n.leaves.length = Table.cells s := by
  induction n generalizing s with
  | leaf a =>
    rw [shape?] at h
    cases h
    rfl
  | row items ih =>
    obtain ⟨t, ht, rfl⟩ := shape?_row_eq_some_iff.1 h
    rw [leaves, leavesAll_eq, List.length_flatMap]
    by_cases hne : items = []
    · rw [hne]
      exact (Nat.zero_mul _).symm
    · have hparts := (commonShape?_eq_some_iff hne).1 ht
      have hsizes : items.map (fun n => n.leaves.length) =
          List.replicate items.length (Table.cells t) := by
        rw [List.eq_replicate_iff]
        refine ⟨List.length_map _, List.forall_mem_map.2 fun n hn => ih n hn (hparts n hn)⟩
      rw [hsizes, List.sum_replicate_nat]
      rfl

/-! ## Converting the items -/

theorem mapLeavesAll_ok {items : List (Nest α)} {items' : List (Nest β)}
    (h : mapLeavesAll f items = .ok items') :
    List.Forall₂ (fun n n' => n.mapLeaves f = .ok n') items items' := by
  induction items generalizing items' with
  | nil =>
    cases h
    exact .nil
  | cons n ns ih =>
    rw [mapLeavesAll] at h
    obtain ⟨m, hm, h⟩ := bind_ok_iff.1 h
    obtain ⟨ms, hms, h⟩ := bind_ok_iff.1 h
    cases h
    exact .cons hm (ih hms)

theorem commonShape?_congr {items : List (Nest α)} {items' : List (Nest β)}
    (h : List.Forall₂ (fun n n' => n'.shape? = n.shape?) items items') :
    commonShape? items' = commonShape? items := by
  induction h with
  | nil => rfl
  | @cons n n' ns ns' hn hns ih =>
    cases hns with
    | nil => rw [commonShape?, commonShape?, hn]
    | @cons m m' ms ms' hm hms =>
      rw [commonShape?.eq_3 _ _ (List.cons_ne_nil m' ms'),
        commonShape?.eq_3 _ _ (List.cons_ne_nil m ms), hn, ih]

/-- Converting the items of a nest keeps its shape. -/
theorem shape?_mapLeaves {n : Nest α} {n' : Nest β} (h : n.mapLeaves f = .ok n') :
    n'.shape? = n.shape? := by
  induction n generalizing n' with
  | leaf a =>
    rw [mapLeaves] at h
    obtain ⟨b, -, rfl⟩ := map_ok_iff.1 h
    rw [shape?, shape?]
  | row items ih =>
    rw [mapLeaves] at h
    obtain ⟨items', hitems, rfl⟩ := map_ok_iff.1 h
    have hall := mapLeavesAll_ok hitems
    have hshapes : List.Forall₂ (fun n n' => n'.shape? = n.shape?) items items' := by
      rw [forall₂_iff_getElem?] at hall ⊢
      refine ⟨hall.1, fun i n hn => ?_⟩
      obtain ⟨n', hn', hconvert⟩ := hall.2 i n hn
      exact ⟨n', hn', ih n (List.mem_of_getElem? hn) hconvert⟩
    rw [shape?, shape?, commonShape?_congr hshapes, hshapes.length_eq]

/-- What cannot be converted is one of the items. -/
theorem exists_mem_leaves_of_mapLeaves {n : Nest α} {e : ε} (h : n.mapLeaves f = .error e) :
    ∃ a ∈ n.leaves, f a = .error e := by
  induction n with
  | leaf a =>
    rw [mapLeaves] at h
    exact ⟨a, by simp [leaves], map_error_iff.1 h⟩
  | row items ih =>
    rw [mapLeaves, map_error_iff] at h
    rw [leaves]
    induction items with
    | nil => cases h
    | cons n ns ihns =>
      rw [List.forall_mem_cons] at ih
      rw [mapLeavesAll] at h
      simp only [leavesAll, List.mem_append]
      obtain h | ⟨m, -, h⟩ := bind_error_iff.1 h
      · obtain ⟨a, ha, hfa⟩ := ih.1 h
        exact ⟨a, .inl ha, hfa⟩
      · obtain h | ⟨ms, -, h⟩ := bind_error_iff.1 h
        · obtain ⟨a, ha, hfa⟩ := ihns ih.2 h
          exact ⟨a, .inr ha, hfa⟩
        · cases h

end Nest

namespace Native

theorem unconvertible_of_doubleOfText {cs : List Char} {e : ConstructError}
    (h : doubleOfText cs = .error e) : ∃ kind, e = .unconvertible kind := by
  unfold doubleOfText at h
  split at h
  · cases h
  · cases h
    exact ⟨_, rfl⟩

theorem unconvertible_of_toDouble {v : Native} {e : ConstructError} (h : v.toDouble = .error e) :
    ∃ kind, e = .unconvertible kind := by
  have hint {n : Int} (h : doubleOfInt n = .error e) : ∃ kind, e = .unconvertible kind := by
    rw [doubleOfInt] at h
    generalize Binary.ofInt? .double n = x? at h
    cases x? with
    | none =>
      cases h
      exact ⟨_, rfl⟩
    | some x => cases h
  have hbytes {bs : List UInt8} (h : doubleOfBytes bs = .error e) :
      ∃ kind, e = .unconvertible kind := by
    unfold doubleOfBytes at h
    split_ifs at h
    · exact unconvertible_of_doubleOfText h
    · cases h
      exact ⟨_, rfl⟩
  cases v with
  | int n => exact hint h
  | sizedInt _ n => exact hint h
  | bool b => exact hint h
  | sizedBool b => exact hint h
  | str s => exact unconvertible_of_doubleOfText h
  | bytes bs => exact hbytes h
  | buffer bs => exact hbytes h
  | double x => cases h
  | sizedDouble x => cases h
  | single x => cases h
  | half x => cases h
  | _ =>
    cases h
    exact ⟨_, rfl⟩

theorem unconvertible_of_leafToSingle {v : Native} {e : ConstructError}
    (h : v.leafToSingle = .error e) : ∃ kind, e = .unconvertible kind := by
  unfold leafToSingle at h
  split at h
  · cases h
  · cases h
  · cases h
  · exact unconvertible_of_toDouble (map_error_iff.1 h)

/-- A value that is reported as a nest is rectangular, and its shape counts the numbers in it. -/
theorem shape?_of_toSingle_nested {v : Native} {n : Nest Single}
    (h : v.toSingle = .error (.nested n)) :
    ∃ s, n.shape? = some s ∧ s.length ≤ maxLevels ∧ n.leaves.length = Table.cells s := by
  unfold toSingle at h
  split at h
  · cases h
  next s hs =>
    split at h
    · cases h
    next hlevels =>
    obtain hconvert | ⟨n', hconvert, h⟩ := bind_error_iff.1 h
    · obtain ⟨a, -, ha⟩ := Nest.exists_mem_leaves_of_mapLeaves hconvert
      obtain ⟨kind, hkind⟩ := unconvertible_of_leafToSingle ha
      cases hkind
    · rw [← Nest.shape?_mapLeaves hconvert] at hs
      split at h
      · cases h
      · cases h
        exact ⟨s, hs, Nat.le_of_not_lt hlevels, Nest.length_leaves hs⟩

end Native

end Formulary
