import Formulary.Destination.Cache
import Formulary.Proofs.Destination.Fuel

/-!
# Bindings that share a cache

What a binding does to the cache of shapes is to look up the names of some records one after the
other. Which names these are does not depend on the cache: they are the records that the binding
gets to, where the slots of a record and the elements of a sequence are bound in turn up to the
first that fails. Each look-up in a sound cache gives what compiling gives. So the cache changes no
outcome, and the shapes that were compiled are those of the records that were used.
-/
namespace Formulary

/-! ## Look-ups -/

namespace ShapeCache

/-- The records that have an entry. -/
def names (cache : ShapeCache) : List String := cache.shapes.map Prod.fst

/-- The cache after the shapes of some records were looked up one after the other. -/
def lookups (family : Family) (names : List String) (cache : ShapeCache) : ShapeCache :=
  names.foldl (fun cache name => (cache.shape family name).2) cache

/-- Every entry is what compiling its record gives. No record has two entries, and the log holds the
entries in the order in which they were made. -/
structure Sound (family : Family) (cache : ShapeCache) : Prop where
  compiled : ∀ entry ∈ cache.shapes, family.shape entry.1 = .ok entry.2
  distinct : cache.names.Nodup
  logged : cache.log = (cache.shapes.map Prod.snd).reverse

variable {family : Family} {cache : ShapeCache} {name : String}

theorem sound_empty (family : Family) : Sound family {} where
  compiled := nofun
  distinct := List.nodup_nil
  logged := rfl

theorem not_mem_names_of_lookup (h : cache.shapes.lookup name = none) : name ∉ cache.names := by
  rw [names, List.mem_map]
  rintro ⟨entry, hentry, rfl⟩
  have hne := List.lookup_eq_none_iff.1 h entry hentry
  simp at hne

/-- What a look-up in a sound cache does: it finds the entry, makes one, or fails. -/
theorem Sound.shape_cases (h : cache.Sound family) (name : String) :
    (∃ s, name ∈ cache.names ∧ family.shape name = .ok s ∧
      cache.shape family name = (.ok s, cache)) ∨
    (∃ s, name ∉ cache.names ∧ family.shape name = .ok s ∧
      cache.shape family name = (.ok s, ⟨(name, s) :: cache.shapes, cache.log ++ [s]⟩)) ∨
    ∃ cause, name ∉ cache.names ∧ family.shape name = .error cause ∧
      cache.shape family name = (.error cause, cache) := by
  unfold shape
  cases hfound : cache.shapes.lookup name with
  | some s =>
    obtain ⟨before, after, hsplit, -⟩ := List.lookup_eq_some_iff.1 hfound
    have hentry : (name, s) ∈ cache.shapes := by simp [hsplit]
    exact .inl ⟨s, List.mem_map.2 ⟨_, hentry, rfl⟩, h.compiled _ hentry, rfl⟩
  | none =>
    have hnew := not_mem_names_of_lookup hfound
    cases hshape : family.shape name with
    | ok s => exact .inr (.inl ⟨s, hnew, rfl, rfl⟩)
    | error cause => exact .inr (.inr ⟨cause, hnew, rfl, rfl⟩)

theorem Sound.shape_fst (h : cache.Sound family) (name : String) :
    (cache.shape family name).1 = family.shape name := by
  obtain ⟨s, -, hshape, heq⟩ | ⟨s, -, hshape, heq⟩ | ⟨cause, -, hshape, heq⟩ :=
    h.shape_cases name <;> rw [heq, hshape]

theorem Sound.shape_snd (h : cache.Sound family) (name : String) :
    (cache.shape family name).2.Sound family := by
  obtain ⟨s, -, -, heq⟩ | ⟨s, hnew, hshape, heq⟩ | ⟨cause, -, -, heq⟩ := h.shape_cases name
  · rw [heq]
    exact h
  · rw [heq]
    refine ⟨List.forall_mem_cons.2 ⟨hshape, h.compiled⟩, ?_, ?_⟩
    · exact List.nodup_cons.2 ⟨hnew, h.distinct⟩
    · rw [List.map_cons, List.reverse_cons, h.logged]
  · rw [heq]
    exact h

theorem Sound.mem_names_shape (h : cache.Sound family) (name other : String) :
    other ∈ (cache.shape family name).2.names ↔
      other ∈ cache.names ∨ other = name ∧ ∃ s, family.shape name = .ok s := by
  obtain ⟨s, hold, hshape, heq⟩ | ⟨s, -, hshape, heq⟩ | ⟨cause, -, hshape, heq⟩ :=
    h.shape_cases name
  · rw [heq, hshape]
    constructor
    · exact .inl
    · rintro (hother | ⟨rfl, -⟩)
      · exact hother
      · exact hold
  · rw [heq, hshape]
    simp [names, or_comm]
  · rw [heq, hshape]
    simp

/-- What does not compile has no entry, and fails in the same way at every look-up. -/
theorem Sound.shape_error (h : cache.Sound family) {cause : ShapeError}
    (hshape : family.shape name = .error cause) :
    name ∉ cache.names ∧ cache.shape family name = (.error cause, cache) := by
  obtain ⟨s, -, hok, -⟩ | ⟨s, -, hok, -⟩ | ⟨cause', hnew, herror, heq⟩ := h.shape_cases name
  · cases hshape.symm.trans hok
  · cases hshape.symm.trans hok
  · cases hshape.symm.trans herror
    exact ⟨hnew, heq⟩

theorem Sound.log_names (h : cache.Sound family) :
    cache.log.map Shape.name = cache.names.reverse := by
  rw [h.logged, List.map_reverse, List.map_map, names]
  congr 1
  apply List.map_congr_left
  intro entry hentry
  exact (Family.shape_ok (h.compiled entry hentry)).1

/-- The log holds what the records with an entry compile to. -/
theorem Sound.mem_log_iff (h : cache.Sound family) {shape : Shape} :
    shape ∈ cache.log ↔ ∃ name ∈ cache.names, family.shape name = .ok shape := by
  rw [h.logged, List.mem_reverse, List.mem_map]
  constructor
  · rintro ⟨entry, hentry, rfl⟩
    exact ⟨entry.1, List.mem_map_of_mem hentry, h.compiled entry hentry⟩
  · rintro ⟨name, hname, hshape⟩
    obtain ⟨entry, hentry, rfl⟩ := List.mem_map.1 hname
    cases hshape.symm.trans (h.compiled entry hentry)
    exact ⟨entry, hentry, rfl⟩

theorem lookups_append (names names' : List String) (cache : ShapeCache) :
    cache.lookups family (names ++ names') = (cache.lookups family names).lookups family names' :=
  List.foldl_append

theorem Sound.lookups (h : cache.Sound family) (names : List String) :
    (cache.lookups family names).Sound family := by
  induction names generalizing cache with
  | nil => exact h
  | cons name names ih => exact ih (h.shape_snd name)

theorem Sound.mem_names_lookups (h : cache.Sound family) (names : List String) (name : String) :
    name ∈ (cache.lookups family names).names ↔
      name ∈ cache.names ∨ name ∈ names ∧ ∃ s, family.shape name = .ok s := by
  induction names generalizing cache with
  | nil => simp [ShapeCache.lookups]
  | cons first names ih =>
    have hstep := ih (h.shape_snd first)
    rw [h.mem_names_shape] at hstep
    rw [ShapeCache.lookups, List.foldl_cons, ← ShapeCache.lookups, hstep, List.mem_cons]
    constructor
    · rintro ((hname | ⟨rfl, hshape⟩) | ⟨hname, hshape⟩)
      · exact .inl hname
      · exact .inr ⟨.inl rfl, hshape⟩
      · exact .inr ⟨.inr hname, hshape⟩
    · rintro (hname | ⟨rfl | hname, hshape⟩)
      · exact .inl (.inl hname)
      · exact .inl (.inr ⟨rfl, hshape⟩)
      · exact .inr ⟨hname, hshape⟩

end ShapeCache

/-! ## Items in turn -/

/-- The item of a list whose turn comes if the items are taken from the front for as long as they
are fine. -/
inductive InTurn {α : Type} (fine : α → Prop) : List α → α → Prop where
  | here {x xs} : InTurn fine (x :: xs) x
  | later {x y ys} (before : fine y) (rest : InTurn fine ys x) : InTurn fine (y :: ys) x

theorem exists_inTurn_cons {α : Type} {fine p : α → Prop} {y : α} {ys : List α} :
    (∃ x, InTurn fine (y :: ys) x ∧ p x) ↔ p y ∨ fine y ∧ ∃ x, InTurn fine ys x ∧ p x := by
  constructor
  · rintro ⟨x, _ | ⟨hy, hx⟩, hp⟩
    · exact .inl hp
    · exact .inr ⟨hy, x, hx, hp⟩
  · rintro (hp | ⟨hy, x, hx, hp⟩)
    · exact ⟨y, .here, hp⟩
    · exact ⟨x, .later hy hx, hp⟩

theorem not_exists_inTurn_nil {α : Type} {fine p : α → Prop} :
    ¬ ∃ x, InTurn fine [] x ∧ p x := by
  rintro ⟨x, hx, -⟩
  cases hx

namespace Binder

/-! ## Look-ups of a binding -/

/-- A binding with a cache has the outcome of the plain one whatever sound cache it is given, and
does nothing to the cache but look up records. If it ends, these are the records in use. -/
def Consults {α : Type} (family : Family) (used : String → Prop) (cached : Cached α)
    (plain : Except BindError α) : Prop :=
  ∃ names : List String,
    (∀ cache : ShapeCache, cache.Sound family →
      cached cache = (plain, cache.lookups family names)) ∧
    (plain ≠ .error .unfinished → ∀ name, name ∈ names ↔ used name)

namespace Consults

variable {α β : Type} {family : Family} {used used' : String → Prop} {cached : Cached α}
  {plain : Except BindError α}

theorem congr (h : Consults family used cached plain)
    (hused : plain ≠ .error .unfinished → ∀ name, used name ↔ used' name) :
    Consults family used' cached plain := by
  obtain ⟨names, hrun, hnames⟩ := h
  exact ⟨names, hrun, fun hends name => (hnames hends name).trans (hused hends name)⟩

theorem nothing (plain : Except BindError α) (h : ∀ name, ¬ used name) :
    Consults family used (fun cache => (plain, cache)) plain :=
  ⟨[], fun _ _ => rfl, fun _ name => by simp [h name]⟩

/-- The outcome is changed, and still tells when the binding was broken off. -/
theorem map (h : Consults family used cached plain) {f : Except BindError α → Except BindError β}
    (hf : f (.error .unfinished) = .error .unfinished) :
    Consults family used (fun cache => (f (cached cache).1, (cached cache).2)) (f plain) := by
  obtain ⟨names, hrun, hnames⟩ := h
  refine ⟨names, fun cache hcache => ?_, fun hends => hnames ?_⟩
  · dsimp only
    rw [hrun cache hcache]
  · rintro rfl
    exact hends hf

/-- One look-up goes first. -/
theorem lookup {record : String} {go : Except ShapeError Shape → Cached α}
    (h : Consults family used (go (family.shape record)) plain) :
    Consults family (fun name => name = record ∨ used name)
      (fun cache => go (cache.shape family record).1 (cache.shape family record).2) plain := by
  obtain ⟨names, hrun, hnames⟩ := h
  refine ⟨record :: names, fun cache hcache => ?_, fun hends name => ?_⟩
  · dsimp only
    rw [hcache.shape_fst, hrun _ (hcache.shape_snd record)]
    rfl
  · rw [List.mem_cons, hnames hends]

end Consults

/-- One binding after the other with the same cache; the second is left out if the first fails. -/
def Cached.seq {α β γ : Type} (combine : α → β → γ) (first : Cached α) (rest : Cached β) :
    Cached γ := fun cache =>
  match first cache with
  | (.error cause, cache) => (.error cause, cache)
  | (.ok v, cache) => ((rest cache).1.map (combine v), (rest cache).2)

theorem Consults.seq {α β γ : Type} {family : Family} {used used' : String → Prop}
    {first : Cached α} {rest : Cached β} {p : Except BindError α} {q : Except BindError β}
    (h : Consults family used first p) (h' : Consults family used' rest q)
    (combine : α → β → γ) :
    Consults family (fun name => used name ∨ (∃ v, p = .ok v) ∧ used' name)
      (Cached.seq combine first rest) (p >>= fun v => q.map (combine v)) := by
  obtain ⟨names, hrun, hnames⟩ := h
  obtain ⟨names', hrun', hnames'⟩ := h'
  cases p with
  | error cause =>
    refine ⟨names, fun cache hcache => ?_, fun hends name => ?_⟩
    · rw [Cached.seq, hrun cache hcache]
      rfl
    · have hp : (.error cause : Except BindError α) ≠ .error .unfinished := by
        rintro ⟨⟩
        exact hends rfl
      rw [hnames hp]
      simp
  | ok v =>
    refine ⟨names ++ names', fun cache hcache => ?_, fun hends name => ?_⟩
    · rw [Cached.seq, hrun cache hcache, ShapeCache.lookups_append]
      dsimp only
      rw [hrun' _ (hcache.lookups names)]
      rfl
    · have hq : q ≠ .error .unfinished := by
        rintro rfl
        exact hends rfl
      rw [List.mem_append, hnames nofun, hnames' hq]
      simp

/-! ## The functions that a binding calls -/

section Calls

/-- What the parts of a binding are given to: with and without a cache the outcome is the same, the
records in use are looked up, and if the binding of a part ends it tells whether the part is
bound. -/
structure Mirrors (family : Family) (used : Expr → Destination → String → Prop)
    (bound : Expr → Destination → Prop) (cached : Expr → Destination → Cached Native)
    (plain : Expr → Destination → Except BindError Native) : Prop where
  consults : ∀ x t, Consults family (used x t) (cached x t) (plain x t)
  bound_iff : ∀ x t, plain x t ≠ .error .unfinished → (bound x t ↔ ∃ v, plain x t = .ok v)

/-- The slot can be filled from the list. -/
def Fillable (bound : Expr → Destination → Prop) (es : List Expr) (slot : Slot) : Prop :=
  ∃ x, slot.component? es = some x ∧ bound x slot.type

/-- The records that a slot uses. -/
def SlotUses (used : Expr → Destination → String → Prop) (es : List Expr) (name : String)
    (slot : Slot) : Prop :=
  ∃ x, slot.component? es = some x ∧ used x slot.type name

variable {family : Family} {used : Expr → Destination → String → Prop}
  {bound : Expr → Destination → Prop} {cached : Expr → Destination → Cached Native}
  {plain : Expr → Destination → Except BindError Native}

theorem place_ne_unfinished {α : Type} {x : Except BindError α} {wrap : BindError → BindError}
    (h : x.mapError (·.place wrap) ≠ .error .unfinished) : x ≠ .error .unfinished := by
  rintro rfl
  exact h rfl

theorem left_ne_unfinished {α β : Type} {x : Except BindError α} {f : α → Except BindError β}
    (h : x >>= f ≠ .error .unfinished) : x ≠ .error .unfinished := by
  rintro rfl
  exact h rfl

theorem bindElements_cons (bind : Expr → Except BindError Native) (type : Destination)
    (index : Nat) (x : Expr) (es : List Expr) :
    bindElements bind type index (x :: es) =
      (bind x).mapError (·.place (.inElement index type)) >>= fun v =>
        (bindElements bind type (index + 1) es).map (v :: ·) := by
  rw [bindElements]
  cases bind x <;> rfl

theorem cachedElements_cons (bind : Expr → Cached Native) (type : Destination) (index : Nat)
    (x : Expr) (es : List Expr) :
    cachedElements bind type index (x :: es) =
      Cached.seq (· :: ·)
        (fun cache => ((bind x cache).1.mapError (·.place (.inElement index type)),
          (bind x cache).2))
        (cachedElements bind type (index + 1) es) := by
  funext cache
  rw [cachedElements, Cached.seq]
  rcases bind x cache with ⟨_ | _, cache'⟩ <;> rfl

theorem Mirrors.elements (h : Mirrors family used bound cached plain) (type elem : Destination)
    (index : Nat) (es : List Expr) :
    Consults family (fun name => ∃ x, InTurn (bound · elem) es x ∧ used x elem name)
      (cachedElements (cached · elem) type index es)
      (bindElements (plain · elem) type index es) := by
  induction es generalizing index with
  | nil => exact .nothing _ fun name => not_exists_inTurn_nil
  | cons x es ih =>
    rw [cachedElements_cons, bindElements_cons]
    refine (((h.consults x elem).map rfl).seq (ih (index + 1)) (· :: ·)).congr ?_
    intro hends name
    have hbound := h.bound_iff x elem (place_ne_unfinished (left_ne_unfinished hends))
    simp only [exists_inTurn_cons, hbound, mapError_ok_iff]

theorem Mirrors.slot (h : Mirrors family used bound cached plain) (e : Expr) (es : List Expr)
    (slot : Slot) :
    Consults family (SlotUses used es · slot) (cachedSlot cached e es slot)
      (bindSlot plain e es slot) := by
  unfold cachedSlot bindSlot SlotUses Slot.component?
  by_cases hrest : slot.isRest = true
  · simp only [hrest, if_true]
    refine ((h.consults _ _).map rfl).congr fun _ name => ?_
    simp
  · simp only [hrest, Bool.false_eq_true, if_false]
    cases es[slot.position]? with
    | none => exact .nothing _ (by simp)
    | some x =>
      refine ((h.consults _ _).map rfl).congr fun _ name => ?_
      simp

theorem bindSlots_cons (e : Expr) (es : List Expr) (slot : Slot) (slots : List Slot) :
    bindSlots plain e es (slot :: slots) =
      bindSlot plain e es slot >>= fun v =>
        (bindSlots plain e es slots).map ((slot.field, v) :: ·) := by
  rw [bindSlots]
  simp only [bind_return]

theorem cachedSlots_cons (e : Expr) (es : List Expr) (slot : Slot) (slots : List Slot) :
    cachedSlots cached e es (slot :: slots) =
      Cached.seq (fun v vs => (slot.field, v) :: vs) (cachedSlot cached e es slot)
        (cachedSlots cached e es slots) := by
  funext cache
  rw [cachedSlots, Cached.seq]
  rcases cachedSlot cached e es slot cache with ⟨_ | _, cache'⟩ <;> rfl

theorem component_ne_unfinished {e x : Expr} {es : List Expr} {slot : Slot}
    (hx : slot.component? es = some x) (h : bindSlot plain e es slot ≠ .error .unfinished) :
    plain x slot.type ≠ .error .unfinished := by
  unfold bindSlot at h
  unfold Slot.component? at hx
  split_ifs at hx h with hrest
  · cases hx
    exact place_ne_unfinished h
  · rw [hx] at h
    exact place_ne_unfinished h

theorem Mirrors.fillable_iff (h : Mirrors family used bound cached plain) {e : Expr}
    {es : List Expr} {slot : Slot} (hends : bindSlot plain e es slot ≠ .error .unfinished) :
    Fillable bound es slot ↔ ∃ v, bindSlot plain e es slot = .ok v := by
  simp only [bindSlot_ok_iff, Fillable]
  constructor
  · rintro ⟨x, hx, hbound⟩
    obtain ⟨v, hv⟩ := (h.bound_iff x _ (component_ne_unfinished hx hends)).1 hbound
    exact ⟨v, x, hx, hv⟩
  · rintro ⟨v, x, hx, hv⟩
    exact ⟨x, hx, (h.bound_iff x _ (component_ne_unfinished hx hends)).2 ⟨v, hv⟩⟩

theorem Mirrors.slots (h : Mirrors family used bound cached plain) (e : Expr) (es : List Expr)
    (slots : List Slot) :
    Consults family
      (fun name => ∃ slot, InTurn (Fillable bound es) slots slot ∧ SlotUses used es name slot)
      (cachedSlots cached e es slots) (bindSlots plain e es slots) := by
  induction slots with
  | nil => exact .nothing _ fun name => not_exists_inTurn_nil
  | cons slot slots ih =>
    rw [cachedSlots_cons, bindSlots_cons]
    refine ((h.slot e es slot).seq ih _).congr ?_
    intro hends name
    simp only [exists_inTurn_cons, h.fillable_iff (left_ne_unfinished hends)]

/-- The records that the slots of a record use. -/
def RecordUses (used : Expr → Destination → String → Prop) (bound : Expr → Destination → Prop)
    (shape : Shape) (e : Expr) (name : String) : Prop :=
  ∃ es, e.elems? = some es ∧ shape.Fits es.length ∧
    ∃ slot, InTurn (Fillable bound es) shape.slots slot ∧ SlotUses used es name slot

theorem Mirrors.record (h : Mirrors family used bound cached plain) (shape : Shape) (e : Expr) :
    Consults family (RecordUses used bound shape e) (cachedRecord cached shape e)
      (bindRecord plain shape e) := by
  unfold cachedRecord bindRecord RecordUses
  cases e.elems? with
  | none => exact .nothing _ (by simp)
  | some es =>
    dsimp only
    cases hlength : checkLength shape e es.length with
    | error cause =>
      have hfits : ¬ shape.Fits es.length := by
        rw [← checkLength_ok_iff (e := e), hlength]
        exact nofun
      exact .nothing _ (by simp [hfits])
    | ok _ =>
      have hfits := checkLength_ok_iff.1 hlength
      rw [ok_bind, bind_return]
      refine ((h.slots e es shape.slots).map rfl).congr fun _ name => ?_
      simp [hfits]

/-- Binds a record once its shape was looked up. -/
def cachedShape (bind : Expr → Destination → Cached Native) (e : Expr) :
    Except ShapeError Shape → Cached Native
  | .error cause, cache => (.error (.shape cause), cache)
  | .ok shape, cache => cachedRecord bind shape e cache

theorem Mirrors.shape (h : Mirrors family used bound cached plain) (e : Expr)
    (compiled : Except ShapeError Shape) :
    Consults family (fun name => ∃ shape, compiled = .ok shape ∧ RecordUses used bound shape e name)
      (cachedShape cached e compiled)
      (compiled.mapError .shape >>= fun shape => bindRecord plain shape e) := by
  cases compiled with
  | error cause => exact .nothing _ (by simp)
  | ok shape => exact (h.record shape e).congr fun _ name => by simp

/-- The records that the elements of a sequence use. -/
def SequenceUses (used : Expr → Destination → String → Prop) (bound : Expr → Destination → Prop)
    (elem : Destination) (e : Expr) (name : String) : Prop :=
  ∃ es, e.elems? = some es ∧ ∃ x, InTurn (bound · elem) es x ∧ used x elem name

theorem Mirrors.sequence (h : Mirrors family used bound cached plain) (type elem : Destination)
    (isTuple : Bool) (e : Expr) :
    Consults family (SequenceUses used bound elem e) (cachedSequence cached type elem isTuple e)
      (bindSequence plain type elem isTuple e) := by
  unfold cachedSequence bindSequence SequenceUses
  cases e.elems? with
  | none => exact .nothing _ (by simp)
  | some es =>
    refine ((h.elements type elem 0 es).map rfl).congr fun _ name => ?_
    simp

end Calls

/-! ## The records that a binding uses -/

/-- The expression is bound to the type. -/
def Binds (b : Binder) (e : Expr) (type : Destination) : Prop :=
  ∃ n v, b.bindWithin n e type = .ok v

/-- The records whose shapes a binding needs: those that it gets to through types without a custom
binder, where the slots of a record and the elements of a sequence have their turn for as long as
those before them are bound. -/
inductive Uses (b : Binder) : Expr → Destination → String → Prop where
  | record {e name} (free : b.registry.get? (.record name) = none) : Uses b e (.record name) name
  | target {e type target name} (free : b.registry.get? type = none)
      (isOptional : type.optionalTarget? = some target) (rest : Uses b e target name) :
      Uses b e type name
  | slot {source es record shape slot x name} (free : b.registry.get? (.record record) = none)
      (compiled : b.family.shape record = .ok shape) (fits : shape.Fits es.length)
      (turn : InTurn (Fillable b.Binds es) shape.slots slot) (taken : slot.component? es = some x)
      (rest : Uses b x slot.type name) : Uses b (.list source es) (.record record) name
  | element {source es type elem isTuple x name} (free : b.registry.get? type = none)
      (isSequence : type.elements? = some (elem, isTuple)) (turn : InTurn (b.Binds · elem) es x)
      (rest : Uses b x elem name) : Uses b (.list source es) type name

section Uses

variable {b : Binder} {e : Expr} {type : Destination} {name : String}

theorem not_uses_of_custom {custom : CustomBinder} (h : b.registry.get? type = some custom) :
    ¬ b.Uses e type name := by
  rintro (hfree | hfree | hfree | hfree) <;> cases h.symm.trans hfree

theorem uses_target_iff {target : Destination} (hfree : b.registry.get? type = none)
    (h : type.optionalTarget? = some target) : b.Uses e type name ↔ b.Uses e target name := by
  constructor
  · intro huses
    cases huses with
    | record | slot => cases h
    | target _ h' hrest =>
      cases h.symm.trans h'
      exact hrest
    | element _ hseq =>
      obtain ⟨style, rfl | rfl⟩ := Destination.eq_union_of_optionalTarget? h <;> cases hseq
  · exact .target hfree h

theorem uses_record_iff {record : String} (hfree : b.registry.get? (.record record) = none) :
    b.Uses e (.record record) name ↔ name = record ∨ ∃ shape, b.family.shape record = .ok shape ∧
      RecordUses b.Uses b.Binds shape e name := by
  constructor
  · intro huses
    cases huses with
    | record => exact .inl rfl
    | target _ h => cases h
    | slot _ hshape hfits hturn htaken hrest =>
      exact .inr ⟨_, hshape, _, rfl, hfits, _, hturn, _, htaken, hrest⟩
    | element _ h => cases h
  · rintro (rfl | ⟨shape, hshape, es, hes, hfits, slot, hturn, x, htaken, hrest⟩)
    · exact .record hfree
    · cases e with
      | atom => cases hes
      | list =>
        cases hes
        exact .slot hfree hshape hfits hturn htaken hrest

theorem uses_elements_iff {elem : Destination} {isTuple : Bool}
    (hfree : b.registry.get? type = none) (h : type.elements? = some (elem, isTuple)) :
    b.Uses e type name ↔ SequenceUses b.Uses b.Binds elem e name := by
  constructor
  · intro huses
    cases huses with
    | record | slot => cases h
    | target _ ht =>
      obtain ⟨style, rfl | rfl⟩ := Destination.eq_union_of_optionalTarget? ht <;> cases h
    | element _ h' hturn hrest =>
      cases h.symm.trans h'
      exact ⟨_, rfl, _, hturn, hrest⟩
  · rintro ⟨es, hes, x, hturn, hrest⟩
    cases e with
    | atom => cases hes
    | list =>
      cases hes
      exact .element hfree h hturn hrest

theorem not_uses_of_leaf (htarget : type.optionalTarget? = none)
    (hrecord : ∀ record, type ≠ .record record) (hseq : type.elements? = none) :
    ¬ b.Uses e type name := by
  intro huses
  cases huses with
  | record => exact hrecord _ rfl
  | target _ h => cases htarget.symm.trans h
  | slot => exact hrecord _ rfl
  | element _ h => cases hseq.symm.trans h

end Uses

/-! ## One step -/

section Equations

variable {b : Binder} {e : Expr} {type : Destination}

theorem bindCachedWithin_custom {custom : CustomBinder} (h : b.registry.get? type = some custom)
    (n : Nat) : b.bindCachedWithin (n + 1) e type = fun cache => (custom e type, cache) := by
  funext cache
  simp only [bindCachedWithin, h]

theorem bindCachedWithin_target {target : Destination} (hfree : b.registry.get? type = none)
    (h : type.optionalTarget? = some target) (n : Nat) :
    b.bindCachedWithin (n + 1) e type = b.bindCachedWithin n e target := by
  funext cache
  conv_lhs => unfold bindCachedWithin
  obtain ⟨style, rfl | rfl⟩ := Destination.eq_union_of_optionalTarget? h
  all_goals simp only [hfree, h, Destination.assign?]

theorem bindCachedWithin_record {record : String}
    (hfree : b.registry.get? (.record record) = none) (n : Nat) :
    b.bindCachedWithin (n + 1) e (.record record) = fun cache =>
      cachedShape (b.bindCachedWithin n) e (cache.shape b.family record).1
        (cache.shape b.family record).2 := by
  funext cache
  conv_lhs => unfold bindCachedWithin
  simp only [hfree, Destination.assign?, Destination.optionalTarget?]
  rcases cache.shape b.family record with ⟨_ | _, cache'⟩ <;> rfl

theorem bindCachedWithin_elements {elem : Destination} {isTuple : Bool}
    (hfree : b.registry.get? type = none) (h : type.elements? = some (elem, isTuple)) (n : Nat) :
    b.bindCachedWithin (n + 1) e type =
      cachedSequence (b.bindCachedWithin n) type elem isTuple e := by
  funext cache
  conv_lhs => unfold bindCachedWithin
  cases type <;> cases h
  all_goals
    simp only [hfree, Destination.assign?, Destination.optionalTarget?, Destination.elements?]

theorem bindCachedWithin_leaf (hfree : b.registry.get? type = none)
    (htarget : type.optionalTarget? = none) (hrecord : ∀ record, type ≠ .record record)
    (hseq : type.elements? = none) (n : Nat) :
    b.bindCachedWithin (n + 1) e type = fun cache => (b.bindWithin (n + 1) e type, cache) := by
  funext cache
  unfold bindCachedWithin bindWithin
  simp only [hfree]
  cases type.assign? e with
  | some v => rfl
  | none =>
    simp only [htarget, hseq]
    cases type with
    | record record => exact absurd rfl (hrecord record)
    | _ => split <;> rfl

/-- A step to a record, whether its declaration compiles or not. -/
theorem bindWithin_shape {record : String} (hfree : b.registry.get? (.record record) = none)
    (n : Nat) : b.bindWithin (n + 1) e (.record record) =
      (b.family.shape record).mapError .shape >>= fun shape =>
        bindRecord (b.bindWithin n) shape e := by
  cases hshape : b.family.shape record with
  | ok shape => exact bindWithin_record hfree hshape n
  | error cause =>
    simp only [bindWithin, hfree, hshape, Destination.assign?, Destination.optionalTarget?]
    rfl

end Equations

/-- If the parts are bound alike with and without a cache, so is the whole. -/
theorem consults_succ {b : Binder} {n : Nat}
    (h : Mirrors b.family b.Uses b.Binds (b.bindCachedWithin n) (b.bindWithin n))
    (e : Expr) (type : Destination) :
    Consults b.family (b.Uses e type) (b.bindCachedWithin (n + 1) e type)
      (b.bindWithin (n + 1) e type) := by
  cases hfree : b.registry.get? type with
  | some custom =>
    rw [bindCachedWithin_custom hfree, bindWithin_custom hfree]
    exact .nothing _ fun name => not_uses_of_custom hfree
  | none =>
    -- No type is of two of the kinds that follow, so their order does not matter.
    cases htarget : type.optionalTarget? with
    | some target =>
      rw [bindCachedWithin_target hfree htarget, bindWithin_target hfree htarget]
      exact (h.consults e target).congr fun _ name => (uses_target_iff hfree htarget).symm
    | none =>
      cases hseq : type.elements? with
      | some elements =>
        rw [bindCachedWithin_elements hfree hseq, bindWithin_elements hfree hseq]
        exact (h.sequence type _ _ e).congr fun _ name => (uses_elements_iff hfree hseq).symm
      | none =>
        by_cases hrecord : ∃ record, type = .record record
        · obtain ⟨record, rfl⟩ := hrecord
          rw [bindCachedWithin_record hfree, bindWithin_shape hfree]
          exact (h.shape e _).lookup.congr fun _ name => (uses_record_iff hfree).symm
        · have hrecord' := not_exists.1 hrecord
          rw [bindCachedWithin_leaf hfree htarget hrecord' hseq]
          exact .nothing _ fun name => not_uses_of_leaf htarget hrecord' hseq

/-- A binding that ends tells whether the expression is bound. -/
theorem Ends.binds_iff {b : Binder} {n : Nat} {e : Expr} {type : Destination}
    (h : b.Ends n e type) : b.Binds e type ↔ ∃ v, b.bindWithin n e type = .ok v := by
  constructor
  · rintro ⟨m, v, hv⟩
    rcases h.approx m with hm | hm
    · cases hv.symm.trans hm
    · exact ⟨v, hm.symm.trans hv⟩
  · rintro ⟨v, hv⟩
    exact ⟨n, v, hv⟩

/-- However many steps it is given, a binding is the same with and without a cache. -/
theorem consults_within (b : Binder) (n : Nat) (e : Expr) (type : Destination) :
    Consults b.family (b.Uses e type) (b.bindCachedWithin n e type) (b.bindWithin n e type) := by
  induction n generalizing e type with
  -- A binding that is broken off at once has not looked up the records that it would use.
  | zero => exact ⟨[], fun _ _ => rfl, fun hends => absurd rfl hends⟩
  | succ n ih => exact consults_succ ⟨ih, fun x t hends => Ends.binds_iff hends⟩ e type

/-! ## Calls that share a cache -/

/-- A call of a binder with its own custom binders. -/
structure Call where
  registry : Registry
  expr : Expr
  type : Destination

namespace Call

def binder (c : Call) (family : Family) : Binder := ⟨c.registry, family⟩

/-- What the call gives if every record is compiled afresh at every use. -/
def outcome (family : Family) (c : Call) : Except BindError Native :=
  (c.binder family).bind c.expr c.type

/-- The call needs the shape of the record. -/
def Uses (family : Family) (c : Call) (name : String) : Prop :=
  (c.binder family).Uses c.expr c.type name

end Call

/-- Makes the calls one after the other with the same cache. -/
def bindAll (family : Family) :
    List Call → ShapeCache → List (Except BindError Native) × ShapeCache
  | [], cache => ([], cache)
  | c :: calls, cache =>
    let (outcome, cache) := (c.binder family).bindCached c.expr c.type cache
    let (outcomes, cache) := bindAll family calls cache
    (outcome :: outcomes, cache)

/-- A run of calls has the outcomes of the calls, and it looks up the records that they use. -/
theorem exists_bindAll_eq (family : Family) (calls : List Call) :
    ∃ names : List String,
      (∀ cache : ShapeCache, cache.Sound family →
        bindAll family calls cache =
          (calls.map (Call.outcome family), cache.lookups family names)) ∧
      ((∀ c ∈ calls, c.outcome family ≠ .error .unfinished) →
        ∀ name, name ∈ names ↔ ∃ c ∈ calls, c.Uses family name) := by
  induction calls with
  | nil => exact ⟨[], fun _ _ => rfl, fun _ name => by simp⟩
  | cons c calls ih =>
    obtain ⟨names, hrun, hnames⟩ :
        Consults family (c.Uses family) ((c.binder family).bindCached c.expr c.type)
          (c.outcome family) := consults_within (c.binder family) _ c.expr c.type
    obtain ⟨names', hrun', hnames'⟩ := ih
    refine ⟨names ++ names', fun cache hcache => ?_, fun hends name => ?_⟩
    · rw [bindAll, hrun cache hcache, ShapeCache.lookups_append]
      dsimp only
      rw [hrun' _ (hcache.lookups names), List.map_cons]
    · rw [List.forall_mem_cons] at hends
      rw [List.mem_append, hnames hends.1, hnames' hends.2, List.exists_mem_cons_iff]

theorem sound_bindAll (family : Family) (calls : List Call) :
    (bindAll family calls {}).2.Sound family := by
  obtain ⟨names, hrun, -⟩ := exists_bindAll_eq family calls
  rw [hrun {} (ShapeCache.sound_empty family)]
  exact (ShapeCache.sound_empty family).lookups names

/-- Calls that share a cache, which is empty at first, have the outcomes that they have alone. After
each of them every entry is what its record compiles to, and a record that does not compile has no
entry and fails in the same way again. If the calls end, the shapes that were compiled are those of
the records in use, each of them once. -/
theorem bindAll_transparent (family : Family) (calls : List Call) :
    (bindAll family calls {}).1 = calls.map (Call.outcome family) ∧
    (∀ k, let cache := (bindAll family (calls.take k) {}).2
      (∀ entry ∈ cache.shapes, family.shape entry.1 = .ok entry.2) ∧
      ∀ record cause, family.shape record = .error cause →
        record ∉ cache.names ∧ cache.shape family record = (.error cause, cache)) ∧
    ((∀ c ∈ calls, c.outcome family ≠ .error .unfinished) →
      ((bindAll family calls {}).2.log.map Shape.name).Nodup ∧
      ∀ shape, shape ∈ (bindAll family calls {}).2.log ↔
        ∃ record, (∃ c ∈ calls, c.Uses family record) ∧ family.shape record = .ok shape) := by
  have hempty := ShapeCache.sound_empty family
  have hsound := sound_bindAll family calls
  obtain ⟨names, hrun, hnames⟩ := exists_bindAll_eq family calls
  refine ⟨by rw [hrun {} hempty], ?_, fun hends => ⟨?_, fun shape => ?_⟩⟩
  · intro k
    have hcache := sound_bindAll family (calls.take k)
    exact ⟨hcache.compiled, fun record cause => hcache.shape_error⟩
  · rw [hsound.log_names]
    exact List.nodup_reverse.2 hsound.distinct
  · rw [hsound.mem_log_iff, hrun {} hempty]
    simp only [hempty.mem_names_lookups, hnames hends]
    constructor
    · rintro ⟨record, hrecord | ⟨hused, -⟩, hshape⟩
      · cases hrecord
      · exact ⟨record, hused, hshape⟩
    · rintro ⟨record, hused, hshape⟩
      exact ⟨record, .inr ⟨hused, shape, hshape⟩, hshape⟩

/-- Two records that compile, one inside the other, and one whose second field is of a type that is
not declared. -/
def figures : Family :=
  [⟨"Point", [⟨"x", .plain .int, "", true⟩, ⟨"y", .plain .int, "", true⟩]⟩,
    ⟨"Line", [⟨"start", .record "Point", "", true⟩, ⟨"stop", .record "Point", "", true⟩]⟩,
    ⟨"Draft", [⟨"line", .record "Line", "", true⟩, ⟨"note", .record "Note", "", true⟩]⟩]

def pointShape : Shape := ⟨"Point", [⟨"x", .plain .int, 0, false⟩, ⟨"y", .plain .int, 1, false⟩]⟩

def pointExpr (x y : Int) : Expr :=
  .list none [.atom none (.int .int64 x), .atom none (.int .int64 y)]

/-- The first call fails at the end of the line, and has compiled both records by then. The second
one fails as its record does not compile, and the third one succeeds. -/
theorem bindAll_transparent_figures :
    let half : Call :=
      ⟨⟨[]⟩, .list none [pointExpr 1 2, .atom none (.int .int64 3)], .record "Line"⟩
    let draft : Call := ⟨⟨[]⟩, .list none [], .record "Draft"⟩
    let whole : Call := ⟨⟨[]⟩, .list none [pointExpr 1 2, pointExpr 3 4], .record "Line"⟩
    let calls := [half, draft, whole]
    let cache := (bindAll figures calls {}).2
    (∀ c ∈ calls, c.outcome figures ≠ .error .unfinished) ∧ half.Uses figures "Point" ∧
      pointShape ∈ cache.log ∧ (cache.log.map Shape.name).Nodup ∧ "Draft" ∉ cache.names ∧
      (bindAll figures calls {}).1 = calls.map (Call.outcome figures) := by
  intro half draft whole calls cache
  have hends : ∀ c ∈ calls, c.outcome figures ≠ .error .unfinished := by
    intro c hc hunfinished
    simp only [calls, List.mem_cons, List.not_mem_nil, or_false] at hc
    rcases hc with rfl | rfl | rfl <;> cases hunfinished
  have huses : half.Uses figures "Point" :=
    .slot rfl rfl ⟨by decide, by decide⟩ .here rfl (.record rfl)
  obtain ⟨houtcomes, hcaches, hlog⟩ := bindAll_transparent figures calls
  obtain ⟨honce, hmem⟩ := hlog hends
  have hpoint : pointShape ∈ cache.log := (hmem _).2 ⟨"Point", ⟨half, .head _, huses⟩, rfl⟩
  have hdraft := (hcaches 3).2 "Draft" (.unresolved "Draft" "Note") rfl
  exact ⟨hends, huses, hpoint, honce, hdraft.1, houtcomes⟩

end Binder

end Formulary
