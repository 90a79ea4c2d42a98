import Formulary.Expr.Message
import Formulary.Expr.Printer
import Formulary.Proofs.Message.Basic

/-!
# Expressions and their nodes

An induction principle for expressions, properties that hold of all leaves or of all source
contexts, and the equality of expressions: expressions that differ only in their source contexts
are equal unless they hold `nan`.
-/
namespace Formulary

namespace Expr

@[elab_as_elim, induction_eliminator]
theorem induction {motive : Expr → Prop} (atom : ∀ source a, motive (.atom source a))
    (list : ∀ source es, (∀ e ∈ es, motive e) → motive (.list source es)) (e : Expr) : motive e :=
  @Expr.rec motive (fun es => ∀ e ∈ es, motive e) atom list
    (fun _ h => absurd h List.not_mem_nil)
    (fun _ _ he hes => List.forall_mem_cons.2 ⟨he, hes⟩) e

mutual

/-- Every atom of the expression has the property. -/
def Leaves (P : Atom → Prop) : Expr → Prop
  | .atom _ a => P a
  | .list _ es => LeavesAll P es

def LeavesAll (P : Atom → Prop) : List Expr → Prop
  | [] => True
  | e :: es => Leaves P e ∧ LeavesAll P es

end

mutual

/-- The source context of every node has the property. -/
def Sources (P : Source → Prop) : Expr → Prop
  | .atom s _ => P s
  | .list s es => P s ∧ SourcesAll P es

def SourcesAll (P : Source → Prop) : List Expr → Prop
  | [] => True
  | e :: es => Sources P e ∧ SourcesAll P es

end

@[simp] theorem leaves_atom {P : Atom → Prop} {s : Source} {a : Atom} :
    (Expr.atom s a).Leaves P ↔ P a := by
  rw [Leaves]

@[simp] theorem leaves_list {P : Atom → Prop} {s : Source} {es : List Expr} :
    (Expr.list s es).Leaves P ↔ ∀ e ∈ es, e.Leaves P := by
  rw [Leaves]
  induction es with
  | nil => simp [LeavesAll]
  | cons e es ih => rw [LeavesAll, ih, List.forall_mem_cons]

@[simp] theorem sources_atom {P : Source → Prop} {s : Source} {a : Atom} :
    (Expr.atom s a).Sources P ↔ P s := by
  rw [Sources]

@[simp] theorem sources_list {P : Source → Prop} {s : Source} {es : List Expr} :
    (Expr.list s es).Sources P ↔ P s ∧ ∀ e ∈ es, e.Sources P := by
  have hall : SourcesAll P es ↔ ∀ e ∈ es, e.Sources P := by
    induction es with
    | nil => simp [SourcesAll]
    | cons e es ih => rw [SourcesAll, ih, List.forall_mem_cons]
  rw [Sources, hall]

theorem Leaves.imp {P Q : Atom → Prop} (h : ∀ a, P a → Q a) {e : Expr} (he : e.Leaves P) :
    e.Leaves Q := by
  induction e with
  | atom s a => exact leaves_atom.2 (h a (leaves_atom.1 he))
  | list s es ih =>
    rw [leaves_list] at he ⊢
    exact fun e hmem => ih e hmem (he e hmem)

theorem wellFormed_iff {e : Expr} : e.WellFormed ↔ e.Leaves Atom.WellFormed := by
  induction e with
  | atom s a => rw [WellFormed, leaves_atom]
  | list s es ih =>
    have hall : WellFormedAll es ↔ ∀ e ∈ es, e.WellFormed := by
      clear ih
      induction es with
      | nil => simp [WellFormedAll]
      | cons e es ih => rw [WellFormedAll, ih, List.forall_mem_cons]
    rw [WellFormed, hall, leaves_list]
    exact forall₂_congr ih

/-! ## Functions on lists of expressions -/

theorem bareAll_eq (es : List Expr) : bareAll es = es.map bare := by
  induction es with
  | nil => rfl
  | cons e es ih => rw [bareAll, ih, List.map_cons]

theorem charsAll_eq (es : List Expr) : charsAll es = es.map chars := by
  induction es with
  | nil => rfl
  | cons e es ih => rw [charsAll, ih, List.map_cons]

theorem chars_list (source : Source) (es : List Expr) :
    (Expr.list source es).chars = '(' :: List.intercalate [' '] (es.map chars) ++ [')'] := by
  rw [chars, charsAll_eq]

theorem toMessages_eq (sourced : Bool) (es : List Expr) :
    toMessages sourced es = es.map (toMessage sourced) := by
  induction es with
  | nil => rfl
  | cons e es ih => rw [toMessages, ih, List.map_cons]

/-! ## Bare expressions -/

theorem bare_bare (e : Expr) : e.bare.bare = e.bare := by
  induction e with
  | atom s a => rfl
  | list s es ih =>
    rw [bare, bareAll_eq, bare, bareAll_eq, List.map_map]
    exact congrArg (Expr.list none) (List.map_congr_left ih)

theorem leaves_bare {P : Atom → Prop} {e : Expr} : e.bare.Leaves P ↔ e.Leaves P := by
  induction e with
  | atom s a => rw [bare, leaves_atom, leaves_atom]
  | list s es ih =>
    rw [bare, bareAll_eq, leaves_list, leaves_list, List.forall_mem_map]
    exact forall₂_congr ih

theorem wellFormed_bare {e : Expr} : e.bare.WellFormed ↔ e.WellFormed := by
  rw [wellFormed_iff, wellFormed_iff, leaves_bare]

theorem sources_bare {P : Source → Prop} (h : P none) (e : Expr) : e.bare.Sources P := by
  induction e with
  | atom s a => exact sources_atom.2 h
  | list s es ih =>
    rw [bare, bareAll_eq, sources_list, List.forall_mem_map]
    exact ⟨h, ih⟩

theorem chars_bare (e : Expr) : e.bare.chars = e.chars := by
  induction e with
  | atom source a => rfl
  | list source es ih =>
    have hmap : (es.map bare).map chars = es.map chars := by
      rw [List.map_map]
      exact List.map_congr_left ih
    rw [bare, bareAll_eq, chars_list, chars_list, hmap]

theorem size_withSource (e : Expr) (s : Source) : (e.withSource s).size = e.size := by
  cases e <;> rfl

theorem bare_withSource (e : Expr) (s : Source) : (e.withSource s).bare = e.bare := by
  cases e <;> rfl

/-- The expressions differ in their own source contexts, and below in source contexts only. -/
inductive SameParts : Expr → Expr → Prop where
  | atom (s s' : Source) (a : Atom) : SameParts (.atom s a) (.atom s' a)
  | list (s s' : Source) {es es' : List Expr} (h : es.map bare = es'.map bare) :
      SameParts (.list s es) (.list s' es')

theorem sameParts_of_bare {e e' : Expr} (h : e.bare = e'.bare) : SameParts e e' := by
  cases e with
  | atom s a =>
    cases e' with
    | atom s' a' =>
      simp only [bare, Expr.atom.injEq, true_and] at h
      subst h
      exact .atom s s' a
    | list s' es' => cases h
  | list s es =>
    cases e' with
    | atom s' a' => cases h
    | list s' es' =>
      simp only [bare, bareAll_eq, Expr.list.injEq, true_and] at h
      exact .list s s' h

/-- Induction over two expressions at once that differ in their source contexts only. -/
theorem bare_induction {motive : Expr → Expr → Prop}
    (atom : ∀ s s' a, motive (.atom s a) (.atom s' a))
    (list : ∀ s s' es es', es.map bare = es'.map bare → List.Forall₂ motive es es' →
      motive (.list s es) (.list s' es'))
    {e e' : Expr} (h : e.bare = e'.bare) : motive e e' := by
  induction e generalizing e' with
  | atom s a =>
    cases sameParts_of_bare h with
    | atom => exact atom _ _ _
  | list s es ih =>
    cases sameParts_of_bare h with
    | @list _ s' _ es' hes =>
      refine list s s' es es' hes ?_
      clear h
      induction es generalizing es' with
      | nil =>
        obtain rfl : es' = [] := List.map_eq_nil_iff.1 hes.symm
        exact .nil
      | cons x es ihes =>
        cases es' with
        | nil => cases hes
        | cons y es' =>
          rw [List.map_cons, List.map_cons, List.cons.injEq] at hes
          rw [List.forall_mem_cons] at ih
          exact .cons (ih.1 hes.1) (ihes ih.2 hes.2)

theorem bare_list {es es' : List Expr} (h : es.map bare = es'.map bare) (s s' : Source) :
    (Expr.list s es).bare = (Expr.list s' es').bare := by
  rw [bare, bare, bareAll_eq, bareAll_eq, h]

theorem eq_atom_of_symbol? {e : Expr} {s : Symbol} (h : e.symbol? = some s) :
    ∃ source, e = .atom source (.symbol s) := by
  unfold symbol? at h
  split at h
  · cases h
    exact ⟨_, rfl⟩
  · cases h

theorem symbol?_of_bare {e e' : Expr} (h : e.bare = e'.bare) : e.symbol? = e'.symbol? := by
  cases sameParts_of_bare h with
  | atom s s' a => cases a <;> rfl
  | list => rfl

theorem text_of_bare {e e' : Expr} (h : e.bare = e'.bare) : e.text = e'.text := by
  rw [text, text, ← chars_bare e, h, chars_bare]

/-! ## Equality -/

theorem envelope_false (kind : String) (payload : Message) (source : Source) :
    envelope kind payload source false = .object [(kind, payload)] := by
  cases source <;> rfl

theorem envelope_none (kind : String) (payload : Message) (sourced : Bool) :
    envelope kind payload none sourced = .object [(kind, payload)] := by
  cases sourced <;> rfl

/-- The message without source contexts is that of the bare expression. -/
theorem toMessage_bare (sourced : Bool) (e : Expr) :
    e.bare.toMessage sourced = e.toMessage false := by
  induction e with
  | atom s a => rw [bare, toMessage, toMessage, envelope_none, envelope_false]
  | list s es ih =>
    have hes : (es.map bare).map (toMessage sourced) = es.map (toMessage false) := by
      rw [List.map_map]
      exact List.map_congr_left ih
    rw [bare, bareAll_eq, toMessage, toMessage, toMessages_eq, toMessages_eq, hes, envelope_none,
      envelope_false]

end Expr

/-- The atom is a number or something else that equals itself. -/
def Atom.NotNan : Atom → Prop
  | .single x => x ≠ .nan
  | .double x => x ≠ .nan
  | _ => True

theorem Symbol.every_toMessage {P : Message → Prop} (hstr : ∀ s, P (.str s)) {s : Symbol}
    (hobject : P s.toMessage) : s.toMessage.Every P := by
  refine Message.every_object.2 ⟨hobject, ?_⟩
  intro f hf
  have hf' : f = ("name", .str s.name) ∨ f = ("namespace", .str s.space) := by
    rcases List.mem_cons.1 hf with h | h
    · exact Or.inl h
    · split at h
      · cases h
      · exact Or.inr (List.mem_singleton.1 h)
  rcases hf' with rfl | rfl <;> exact (Message.every_leaf rfl).2 (hstr _)

theorem Symbol.distinctKeys_toMessage (s : Symbol) : s.toMessage.DistinctKeys := by
  by_cases h : s.space = "" <;> simp [toMessage, Message.DistinctKeys, h]

theorem Binary.ofRatio_ne_nan (f : FloatFormat) (s : Bool) (num den : Nat) :
    ofRatio f s num den ≠ .nan := by
  rw [ofRatio]
  split <;> simp

theorem Binary.convert_ne_nan {f : FloatFormat} (g : FloatFormat) {x : Binary f} (h : x ≠ .nan) :
    x.convert g ≠ .nan := by
  cases x with
  | nan => exact absurd rfl h
  | infinity s => simp [convert]
  | finite s r => exact ofRatio_ne_nan g s _ _

theorem Binary.ofDecimal_ne_nan (f : FloatFormat) (d : Decimal) : ofDecimal f d ≠ .nan := by
  rw [ofDecimal]
  split_ifs
  · exact ofRatio_ne_nan f _ 0 1
  · exact nofun
  · exact ofRatio_ne_nan f _ _ 1
  · exact ofRatio_ne_nan f _ _ _

namespace Atom

theorem every_notNan_payload {a : Atom} (h : a.NotNan) : a.payload.Every Message.NotNan := by
  cases a with
  | symbol s => exact Symbol.every_toMessage (fun _ => trivial) trivial
  | single x => exact (Message.every_leaf rfl).2 (Binary.convert_ne_nan _ h)
  | double x => exact (Message.every_leaf rfl).2 h
  | _ => exact (Message.every_leaf rfl).2 trivial

theorem every_distinctKeys_payload (a : Atom) : a.payload.Every Message.DistinctKeys := by
  cases a with
  | symbol s => exact Symbol.every_toMessage (fun _ => trivial) s.distinctKeys_toMessage
  | _ => exact (Message.every_leaf rfl).2 trivial

end Atom

namespace Expr

theorem every_notNan_toMessage {e : Expr} (h : e.Leaves Atom.NotNan) :
    (e.toMessage false).Every Message.NotNan := by
  induction e with
  | atom s a =>
    rw [toMessage, envelope_false, Message.every_object, List.forall_mem_singleton]
    exact ⟨trivial, Atom.every_notNan_payload (leaves_atom.1 h)⟩
  | list s es ih =>
    rw [leaves_list] at h
    rw [toMessage, envelope_false, toMessages_eq, Message.every_object, List.forall_mem_singleton,
      Message.every_object, List.forall_mem_singleton, Message.every_list, List.forall_mem_map]
    exact ⟨trivial, trivial, trivial, fun e he => ih e he (h e he)⟩

theorem every_distinctKeys_toMessage (e : Expr) :
    (e.toMessage false).Every Message.DistinctKeys := by
  induction e with
  | atom s a =>
    rw [toMessage, envelope_false, Message.every_object, List.forall_mem_singleton]
    exact ⟨List.nodup_singleton _, Atom.every_distinctKeys_payload a⟩
  | list s es ih =>
    rw [toMessage, envelope_false, toMessages_eq, Message.every_object, List.forall_mem_singleton,
      Message.every_object, List.forall_mem_singleton, Message.every_list, List.forall_mem_map]
    exact ⟨List.nodup_singleton _, List.nodup_singleton _, trivial, ih⟩

/-- Expressions that differ only in their source contexts are equal, unless they hold `nan`. -/
theorem same_of_bare_eq {e e' : Expr} (h : e.bare = e'.bare) (hn : e'.Leaves Atom.NotNan) :
    e.same e' = true := by
  have hmessage : e.toMessage false = e'.toMessage false := by
    rw [← toMessage_bare false e, h, toMessage_bare]
  rw [same, hmessage]
  exact Message.same_self (every_notNan_toMessage hn) e'.every_distinctKeys_toMessage

end Expr

end Formulary
