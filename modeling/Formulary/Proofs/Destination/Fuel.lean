import Formulary.Proofs.Destination.Source
import Mathlib.Data.Finset.Card
import Mathlib.Tactic.Ring

/-!
# Enough fuel for every binding that ends

More steps do not change the outcome of a binding that has ended. A part of a binding has a
smaller expression, or it has the same expression, up to its source, and another of the types at
hand. Keep an expression fixed. If a binding of it ends in `n + 1` nested steps and not in `n`,
then the types for which it ends have become one more; so there are no more such rounds than types
at hand, and with the expressions inside it each needs one such allowance.
-/
namespace Formulary

namespace Expr

theorem sizeAll_drop_lt {es : List Expr} {k : Nat} (hpos : 0 < k) (hk : k ≤ es.length) :
    sizeAll (es.drop k) < sizeAll es := by
  induction es generalizing k with
  | nil => exact absurd hpos (by simpa using hk)
  | cons e es ih =>
    obtain ⟨k, rfl⟩ : ∃ k', k = k' + 1 := ⟨k - 1, by omega⟩
    have hsize := e.size_pos
    rw [List.drop_succ_cons, sizeAll]
    rcases Nat.eq_zero_or_pos k with rfl | hpos
    · rw [List.drop_zero]
      omega
    · have := ih hpos (Nat.le_of_succ_le_succ hk)
      omega

end Expr

/-! ## Outcomes of bindings that were broken off -/

/-- The first outcome is that of a binding that was broken off, or it is the second outcome. -/
def Approximates {α : Type} (x y : Except BindError α) : Prop :=
  x = .error .unfinished ∨ x = y

namespace Approximates

variable {α β : Type} {x y : Except BindError α}

theorem refl (x : Except BindError α) : Approximates x x := .inr rfl

theorem bind {f g : α → Except BindError β} (h : Approximates x y)
    (hfg : ∀ a, Approximates (f a) (g a)) : Approximates (x >>= f) (y >>= g) := by
  rcases h with rfl | rfl
  · exact .inl rfl
  · cases x with
    | error cause => exact .inr rfl
    | ok a => exact hfg a

theorem map (f : α → β) (h : Approximates x y) : Approximates (x.map f) (y.map f) := by
  rcases h with rfl | rfl
  · exact .inl rfl
  · exact .inr rfl

theorem place (wrap : BindError → BindError) (h : Approximates x y) :
    Approximates (x.mapError (·.place wrap)) (y.mapError (·.place wrap)) := by
  rcases h with rfl | rfl
  · exact .inl rfl
  · exact .inr rfl

end Approximates

namespace Binder

section Calls

variable {f g : Expr → Destination → Except BindError Native} {e : Expr} {es : List Expr}

theorem bindElements_approx {f g : Expr → Except BindError Native} (type : Destination)
    (h : ∀ x ∈ es, Approximates (f x) (g x)) (index : Nat) :
    Approximates (bindElements f type index es) (bindElements g type index es) := by
  induction es generalizing index with
  | nil => exact .refl _
  | cons x es ih =>
    rw [List.forall_mem_cons] at h
    rw [bindElements, bindElements]
    rcases h.1 with hx | hx
    · rw [hx]
      exact .inl rfl
    · rw [hx]
      cases g x with
      | error cause => exact .refl _
      | ok v => exact (ih h.2 (index + 1)).map _

theorem bindSlot_approx {slot : Slot}
    (h : ∀ x, slot.component? es = some x → Approximates (f x slot.type) (g x slot.type)) :
    Approximates (bindSlot f e es slot) (bindSlot g e es slot) := by
  unfold bindSlot
  unfold Slot.component? at h
  by_cases hrest : slot.isRest = true
  · rw [if_pos hrest, if_pos hrest]
    rw [if_pos hrest] at h
    exact (h _ rfl).place _
  · rw [if_neg hrest, if_neg hrest]
    rw [if_neg hrest] at h
    cases hx : es[slot.position]? with
    | none => exact .refl _
    | some x => exact (h x hx).place _

theorem bindSlots_approx {slots : List Slot}
    (h : ∀ slot ∈ slots, ∀ x, slot.component? es = some x →
      Approximates (f x slot.type) (g x slot.type)) :
    Approximates (bindSlots f e es slots) (bindSlots g e es slots) := by
  induction slots with
  | nil => exact .refl _
  | cons slot slots ih =>
    rw [List.forall_mem_cons] at h
    rw [bindSlots, bindSlots]
    exact (bindSlot_approx h.1).bind fun v => (ih h.2).bind fun vs => .refl _

end Calls

variable {b : Binder} {n m : Nat} {e x : Expr} {type t : Destination}

/-- A step is no further from its end than its parts are, also with other registered types as long
as the type itself is registered in the same way. -/
theorem bindWithin_succ_approx {b' : Binder} (hfamily : b'.family = b.family)
    (hfound : b'.registry.get? type = b.registry.get? type)
    (h : ∀ x t, Part b.family e type x t →
      Approximates (b.bindWithin n x t) (b'.bindWithin m x t)) :
    Approximates (b.bindWithin (n + 1) e type) (b'.bindWithin (m + 1) e type) := by
  unfold bindWithin
  rw [hfamily, hfound]
  split
  · exact .refl _
  · split
    · exact .refl _
    · split
      next htarget => exact h e _ (.target htarget)
      next =>
        split
        · exact .refl _
        next shape hshape =>
          unfold bindRecord
          cases e with
          | atom s a => exact .refl _
          | list s es =>
            dsimp only [Expr.elems?]
            cases hlength : checkLength shape (.list s es) es.length with
            | error cause => exact .refl _
            | ok _ =>
              have hfits := checkLength_ok_iff.1 hlength
              refine (bindSlots_approx ?_).bind fun _ => .refl _
              exact fun slot hslot x hx => h x slot.type (.slot hshape hfits hslot hx)
      next hseq =>
        unfold bindSequence
        cases e with
        | atom s a => exact .refl _
        | list s es => exact (bindElements_approx _ (fun x hx => h x _ (.element hseq hx)) 0).map _
      next => exact .refl _

theorem bindWithin_approx (hle : n ≤ m) :
    Approximates (b.bindWithin n e type) (b.bindWithin m e type) := by
  induction n generalizing m e type with
  | zero => exact .inl rfl
  | succ n ih =>
    obtain ⟨m, rfl⟩ : ∃ m', m = m' + 1 := ⟨m - 1, by omega⟩
    exact bindWithin_succ_approx rfl rfl fun x t _ => ih (by omega)

/-! ## Bindings that end -/

/-- The binding ends in so many nested steps. -/
def Ends (b : Binder) (n : Nat) (e : Expr) (type : Destination) : Prop :=
  b.bindWithin n e type ≠ .error .unfinished

theorem not_ends_zero : ¬ b.Ends 0 e type := fun h => h rfl

/-- More steps do not change the outcome of a binding that has ended. -/
theorem Ends.eq_of_le (hle : n ≤ m) (h : b.Ends n e type) :
    b.bindWithin m e type = b.bindWithin n e type :=
  ((bindWithin_approx hle).resolve_left h).symm

theorem Ends.mono (hle : n ≤ m) (h : b.Ends n e type) : b.Ends m e type := by
  rw [Ends, h.eq_of_le hle]
  exact h

theorem Ends.approx (h : b.Ends m e type) (n : Nat) :
    Approximates (b.bindWithin n e type) (b.bindWithin m e type) := by
  rcases Nat.le_total n m with hle | hle
  · exact bindWithin_approx hle
  · exact .inr (h.eq_of_le hle)

theorem Ends.of_parts (h : b.Ends (n + 1) e type)
    (hparts : ∀ x t, Part b.family e type x t → b.Ends n x t → b.Ends m x t) :
    b.Ends (m + 1) e type := by
  have happrox : Approximates (b.bindWithin (n + 1) e type) (b.bindWithin (m + 1) e type) := by
    apply bindWithin_succ_approx rfl rfl
    intro x t hpart
    by_cases hx : b.Ends n x t
    · exact (hparts x t hpart hx).approx n
    · exact .inl (not_not.1 hx)
  rw [Ends, ← happrox.resolve_left h]
  exact h

/-- Source contexts take no part in whether a binding ends. -/
theorem Ends.of_bare (hb : b.registry.IgnoresSources) {e' : Expr} (he : e.bare = e'.bare)
    (h : b.Ends n e type) : b.Ends n e' type := by
  intro hunfinished
  have halike := bindWithin_bare hb n type he
  rw [hunfinished] at halike
  unfold Ends at h
  cases hx : b.bindWithin n e type with
  | ok v =>
    rw [hx] at halike
    cases halike
  | error cause =>
    rw [hx] at halike h
    cases halike with
    | error hcause => exact h (congrArg Except.error (hcause.unfinished.2 rfl))

/-! ## Sizes of parts -/

/-- A part has a smaller expression, or it is given the same one up to its source. -/
theorem Part.smaller_or_passed {family : Family} (h : Part family e type x t) :
    x.size < e.size ∨ family.Passes type t ∧ ∃ s, x = e.withSource s := by
  cases h with
  | target htarget => exact .inr ⟨.target htarget, e.source, by cases e <;> rfl⟩
  | @slot source es name shape slot _ hshape hfits hslot htaken =>
    unfold Slot.component? at htaken
    split_ifs at htaken with hrest
    · cases htaken
      have hneeded := hfits.needed_le hslot
      rw [Slot.needed, if_pos hrest] at hneeded
      rcases Nat.eq_zero_or_pos slot.position with hzero | hpos
      · rw [hzero]
        exact .inr ⟨.rest hshape hslot hrest hzero, none, rfl⟩
      · have := Expr.sizeAll_drop_lt hpos hneeded
        simp only [Expr.size]
        omega
    · exact .inl (Expr.size_lt_of_mem (List.mem_of_getElem? htaken) source)
  | element _ hmem => exact .inl (Expr.size_lt_of_mem hmem _)

theorem Part.mem_typesAtHand {family : Family} (h : Part family e t x type) {goal : Destination}
    (ht : t ∈ family.typesAtHand goal) : type ∈ family.typesAtHand goal := by
  cases h with
  | target htarget => exact Family.typesAtHand_inner ht (.inl htarget)
  | slot hshape _ hslot => exact Family.typesAtHand_slot hshape hslot
  | element hseq => exact Family.typesAtHand_inner ht (.inr ⟨_, hseq⟩)

/-! ## Rounds -/

open scoped Classical in
/-- The types of a list for which a binding of the expression ends in so many nested steps. -/
noncomputable def reached (b : Binder) (types : List Destination) (n : Nat) (e : Expr) :
    Finset Destination :=
  types.toFinset.filter (b.Ends n e)

theorem mem_reached {types : List Destination} :
    t ∈ reached b types n e ↔ t ∈ types ∧ b.Ends n e t := by
  classical simp [reached]

theorem card_reached_le (types : List Destination) :
    (reached b types n e).card ≤ types.length := by
  classical exact (Finset.card_filter_le _ _).trans (List.toFinset_card_le types)

theorem card_reached_mono {types : List Destination} (hle : n ≤ m) :
    (reached b types n e).card ≤ (reached b types m e).card := by
  apply Finset.card_le_card
  intro t ht
  rw [mem_reached] at ht ⊢
  exact ⟨ht.1, ht.2.mono hle⟩

theorem card_reached_lt {types : List Destination} (ht : t ∈ types)
    (hnew : b.Ends (n + 1) e t) (hold : ¬ b.Ends n e t) :
    (reached b types n e).card < (reached b types (n + 1) e).card := by
  apply Finset.card_lt_card
  refine Finset.ssubset_iff_of_subset ?_ |>.2 ⟨t, mem_reached.2 ⟨ht, hnew⟩, ?_⟩
  · intro u hu
    rw [mem_reached] at hu ⊢
    exact ⟨hu.1, hu.2.mono (Nat.le_succ n)⟩
  · intro hmem
    exact hold (mem_reached.1 hmem).2

/-- If `k` steps are enough for every smaller expression, then `k` and one for each type that is
reached are enough for this one. -/
theorem Ends.of_rounds (hb : b.registry.IgnoresSources) {goal : Destination} {k : Nat}
    (hsmall : ∀ x t n, x.size < e.size → t ∈ b.family.typesAtHand goal →
      b.Ends n x t → b.Ends k x t)
    (ht : t ∈ b.family.typesAtHand goal) (h : b.Ends n e t) :
    b.Ends (k + (reached b (b.family.typesAtHand goal) n e).card) e t := by
  induction n generalizing t with
  | zero => exact absurd h not_ends_zero
  | succ n ih =>
    by_cases hold : b.Ends n e t
    · exact (ih ht hold).mono (Nat.add_le_add_left (card_reached_mono (Nat.le_succ n)) k)
    · have hlt := card_reached_lt ht h hold
      refine (h.of_parts ?_).mono (Nat.add_le_add_left hlt k)
      intro x u hpart hx
      have hu := hpart.mem_typesAtHand ht
      rcases hpart.smaller_or_passed with hsize | ⟨-, s, rfl⟩
      · exact (hsmall x u n hsize hu hx).mono (Nat.le_add_right k _)
      · have hbare := Expr.bare_withSource e s
        exact (ih hu (hx.of_bare hb hbare)).of_bare hb hbare.symm

theorem Ends.of_size (hb : b.registry.IgnoresSources) {goal : Destination}
    (ht : t ∈ b.family.typesAtHand goal) (h : b.Ends n e t) :
    b.Ends (e.size * (b.family.typesAtHand goal).length) e t := by
  induction hsize : e.size using Nat.strong_induction_on generalizing e t n with
  | _ size ih =>
    subst hsize
    set count := (b.family.typesAtHand goal).length
    have hsmall : ∀ x t n, x.size < e.size → t ∈ b.family.typesAtHand goal →
        b.Ends n x t → b.Ends ((e.size - 1) * count) x t := by
      intro x t n hlt ht hx
      exact (ih x.size hlt ht hx rfl).mono (Nat.mul_le_mul_right _ (by omega))
    have hle : (e.size - 1) * count + (reached b (b.family.typesAtHand goal) n e).card ≤
        e.size * count := by
      have hcard : (reached b (b.family.typesAtHand goal) n e).card ≤ count := card_reached_le _
      calc (e.size - 1) * count + (reached b (b.family.typesAtHand goal) n e).card
          ≤ (e.size - 1) * count + count := Nat.add_le_add_left hcard _
        _ = (e.size - 1 + 1) * count := by ring
        _ = e.size * count := by rw [Nat.sub_add_cancel e.size_pos]
    exact (Ends.of_rounds hb hsmall ht h).mono hle

/-- A binding that ends in any number of steps ends in those that it is given, with the same
outcome. -/
theorem Ends.bind_eq (hb : b.registry.IgnoresSources) (h : b.Ends n e type) :
    b.bind e type = b.bindWithin n e type := by
  have hle : e.size * (b.family.typesAtHand type).length ≤ b.enoughFuel e type := by
    have hlength := b.family.length_typesAtHand_le type
    exact Nat.mul_le_mul (Nat.le_succ _) (Nat.le_succ_of_le hlength)
  have hends := (Ends.of_size hb Family.mem_typesAtHand_self h).mono hle
  rcases Nat.le_total n (b.enoughFuel e type) with hn | hn
  · exact h.eq_of_le hn
  · exact (hends.eq_of_le hn).symm

/-! ## Bindings that succeed -/

/-- Whether the expression is bound in so many nested steps, if no binder is registered but those
that keep expressions as they are. -/
def Succeeds (family : Family) (n : Nat) (e : Expr) (type : Destination) : Prop :=
  ∃ v, bindWithin { family := family } n e type = .ok v

theorem Succeeds.mono {family : Family} (hle : n ≤ m) (h : Succeeds family n e type) :
    Succeeds family m e type := by
  obtain ⟨v, hv⟩ := h
  exact ⟨v, bindWithin_mono hle hv⟩

/-- A binding that succeeds in any number of steps succeeds in those that it is given. -/
theorem Succeeds.of_enoughFuel {family : Family} (h : Succeeds family n e type) :
    ∃ v, bind { family := family } e type = .ok v := by
  obtain ⟨v, hv⟩ := h
  have hends : Ends { family := family } n e type := by
    rw [Ends, hv]
    exact fun h => by cases h
  exact ⟨v, (hends.bind_eq default_ignoresSources).trans hv⟩

end Binder

end Formulary
