import Formulary.Proofs.Expr.Message
import Formulary.Proofs.Number.Order
import Formulary.Proofs.Program.Basic

/-!
# Equality

Expressions are compared by their messages without source contexts, lists of expressions by their
elements, and programs by their parts. For expressions without `nan` all of this comes down to one
relation between trees: the nodes have the same kinds and equal payloads, and the two zeros are
equal.
-/
namespace Formulary

theorem forall₂_congr_of_mem {α β : Type} {r r' : α → β → Prop} {as : List α} {bs : List β}
    (h : ∀ a ∈ as, ∀ b, r a b ↔ r' a b) : List.Forall₂ r as bs ↔ List.Forall₂ r' as bs := by
  induction as generalizing bs with
  | nil => simp only [List.forall₂_nil_left_iff]
  | cons a as ih =>
    obtain ⟨ha, has⟩ := List.forall_mem_cons.1 h
    simp only [List.forall₂_cons_left_iff, ha, ih has]

theorem forall₂_trans_of_mem {α : Type} {r : α → α → Prop} {as bs cs : List α}
    (h : ∀ a ∈ as, ∀ b c, r a b → r b c → r a c) (hab : List.Forall₂ r as bs)
    (hbc : List.Forall₂ r bs cs) : List.Forall₂ r as cs := by
  induction hab generalizing cs with
  | nil => exact hbc
  | cons ha _ ih =>
    obtain ⟨htrans, hrest⟩ := List.forall_mem_cons.1 h
    cases hbc with
    | cons hb hbs => exact .cons (htrans _ _ ha hb) (ih hrest hbs)

/-- Lists compared element by element are equal exactly if they match element by element. -/
theorem elementwise_iff {α : Type} {eq : α → α → Bool} (all : List α → List α → Bool)
    (nil : all [] [] = true) (cons : ∀ a as b bs, all (a :: as) (b :: bs) = (eq a b && all as bs))
    (short : ∀ b bs, all [] (b :: bs) = false) (long : ∀ a as, all (a :: as) [] = false)
    {as bs : List α} : all as bs = true ↔ List.Forall₂ (fun a b => eq a b = true) as bs := by
  induction as generalizing bs with
  | nil => cases bs <;> simp [nil, short]
  | cons a as ih => cases bs <;> simp [long, cons, ih]

/-! ## Numbers -/

namespace Binary

variable {f g : FloatFormat} {x y z : Binary f}

/-- The numbers are the same one, or the two zeros. -/
def Equals (x y : Binary f) : Prop := x = y ∨ (x.isZero = true ∧ y.isZero = true)

theorem isZero_finite_iff {s : Bool} {r : Fin f.count} :
    (finite s r : Binary f).isZero = true ↔ f.units r = 0 := by
  rw [isZero, beq_iff_eq]
  constructor
  · intro h
    rw [h]
    exact f.units_zero
  · exact f.rank_eq_zero

theorem sameNumber_iff_equals (h : x ≠ .nan) : x.sameNumber y = true ↔ x.Equals y := by
  cases x with
  | nan => exact absurd rfl h
  | infinity s => cases y <;> simp [sameNumber, Equals, isZero]
  | finite s r =>
    cases y with
    | nan => simp [sameNumber, Equals, isZero]
    | infinity t => simp [sameNumber, Equals, isZero]
    | finite t q =>
      rw [Equals, isZero_finite_iff, isZero_finite_iff, or_comm]
      simp [sameNumber]

theorem isZero_convert (h : f.Within g) (x : Binary f) : (x.convert g).isZero = x.isZero := by
  cases x with
  | nan => rfl
  | infinity s => rfl
  | finite s r =>
    obtain ⟨r', hr', hu⟩ := h.exists_rank r
    rw [convert_finite, ofRatio_of_nearest s hr', Bool.eq_iff_iff, isZero_finite_iff,
      isZero_finite_iff, hu, Nat.mul_eq_zero]
    exact or_iff_left (Nat.two_pow_pos _).ne'

/-- A wider format tells the same numbers apart. -/
theorem equals_convert (h : f.Within g) : (x.convert g).Equals (y.convert g) ↔ x.Equals y := by
  have hinj : x.convert g = y.convert g ↔ x = y := by
    constructor
    · intro heq
      rw [← convert_convert h x, heq, convert_convert h]
    · exact congrArg (convert g)
  rw [Equals, hinj, isZero_convert h, isZero_convert h, Equals]

end Binary

/-! ## Messages -/

namespace Message

theorem same_list_iff {xs ys : List Message} : (Message.list xs).same (.list ys) = true ↔
    List.Forall₂ (fun x y => x.same y = true) xs ys := by
  rw [same]
  exact elementwise_iff sameItems (by simp [sameItems]) (fun _ _ _ _ => by rw [sameItems])
    (fun _ _ => by simp [sameItems]) (fun _ _ => by simp [sameItems])

theorem sameFields_iff {fields fields' all : List (String × Message)}
    (hkeys : fields.map Prod.fst = fields'.map Prod.fst)
    (hall : ∀ f ∈ fields', all.lookup f.1 = some f.2) :
    sameFields fields all = true ↔
      List.Forall₂ (fun f f' => f.2.same f'.2 = true) fields fields' := by
  induction fields generalizing fields' with
  | nil =>
    obtain rfl : fields' = [] := List.map_eq_nil_iff.1 hkeys.symm
    simp [sameFields]
  | cons f fs ih =>
    cases fields' with
    | nil => cases hkeys
    | cons f' fs' =>
      obtain ⟨hkey, hrest⟩ := List.cons.inj hkeys
      obtain ⟨hf', hfs'⟩ := List.forall_mem_cons.1 hall
      rw [sameFields, hkey, hf', Option.any_some, Bool.and_eq_true, ih hrest hfs',
        List.forall₂_cons]

/-- Objects with the same keys in the same order are compared field by field. -/
theorem same_object_iff {fields fields' : List (String × Message)}
    (hkeys : fields.map Prod.fst = fields'.map Prod.fst)
    (hdistinct : (fields'.map Prod.fst).Nodup) :
    (Message.object fields).same (.object fields') = true ↔
      List.Forall₂ (fun f f' => f.2.same f'.2 = true) fields fields' := by
  have hlength : fields.length = fields'.length := by
    simpa using congrArg List.length hkeys
  rw [same, hlength, beq_self_eq_true, Bool.true_and]
  exact sameFields_iff hkeys fun f hf => lookup_of_mem hdistinct hf

theorem same_sole_iff {key key' : String} {m m' : Message} :
    (Message.object [(key, m)]).same (.object [(key', m')]) = true ↔
      key = key' ∧ m.same m' = true := by
  by_cases hkey : key = key'
  · have hdistinct : ([(key', m')].map Prod.fst).Nodup := List.nodup_singleton _
    rw [same_object_iff (by simp [hkey]) hdistinct]
    simp [hkey]
  · have hlookup : [(key', m')].lookup key = none := by
      rw [List.lookup_cons, beq_false_of_ne hkey, List.lookup_nil]
    simp [same, sameFields, hlookup, hkey]

theorem same_pair_iff {key key' : String} (hkeys : key ≠ key') {x x' y y' : Message} :
    (Message.object [(key, x), (key', x')]).same (.object [(key, y), (key', y')]) = true ↔
      x.same y = true ∧ x'.same y' = true := by
  have hdistinct : ([(key, y), (key', y')].map Prod.fst).Nodup := by simp [hkeys]
  have hsame : [(key, x), (key', x')].map Prod.fst = [(key, y), (key', y')].map Prod.fst := rfl
  rw [same_object_iff hsame hdistinct]
  simp

theorem same_triple_iff {key key' key'' : String} (hkeys : [key, key', key''].Nodup)
    {x x' x'' y y' y'' : Message} :
    (Message.object [(key, x), (key', x'), (key'', x'')]).same
        (.object [(key, y), (key', y'), (key'', y'')]) = true ↔
      x.same y = true ∧ x'.same y' = true ∧ x''.same y'' = true := by
  have hsame : [(key, x), (key', x'), (key'', x'')].map Prod.fst =
      [(key, y), (key', y'), (key'', y'')].map Prod.fst := rfl
  rw [same_object_iff hsame hkeys]
  simp

/-- Objects with different numbers of fields are different. -/
theorem not_same_of_length {fields fields' : List (String × Message)}
    (h : fields.length ≠ fields'.length) :
    ¬ (Message.object fields).same (.object fields') = true := by
  rw [same, beq_false_of_ne h, Bool.false_and]
  exact Bool.false_ne_true

theorem same_str_iff {s t : String} : (Message.str s).same (.str t) = true ↔ s = t := by
  simp [same, sameLeaf]

end Message

theorem Symbol.same_toMessage_iff {s t : Symbol} :
    s.toMessage.same t.toMessage = true ↔ s = t := by
  obtain ⟨name, space⟩ := s
  obtain ⟨name', space'⟩ := t
  rw [Symbol.mk.injEq, toMessage, toMessage]
  by_cases hs : space = ""
  · by_cases ht : space' = ""
    · simp [hs, ht, Message.same_sole_iff, Message.same_str_iff]
    · simp [hs, ht, Message.not_same_of_length, eq_comm]
  · by_cases ht : space' = ""
    · simp [hs, ht, Message.not_same_of_length]
    · simp [hs, ht, Message.same_pair_iff, Message.same_str_iff]

/-! ## Expressions -/

namespace Atom

/-- The atoms are the same one, or two zeros of the same width. -/
inductive Equals : Atom → Atom → Prop where
  | refl (a : Atom) : Equals a a
  | singles {x y : Single} (hx : x.isZero = true) (hy : y.isZero = true) :
      Equals (.single x) (.single y)
  | doubles {x y : Double} (hx : x.isZero = true) (hy : y.isZero = true) :
      Equals (.double x) (.double y)

variable {a b c : Atom}

theorem Equals.symm (h : a.Equals b) : b.Equals a := by
  cases h with
  | refl => exact .refl a
  | singles hx hy => exact .singles hy hx
  | doubles hx hy => exact .doubles hy hx

theorem Equals.trans (hab : a.Equals b) (hbc : b.Equals c) : a.Equals c := by
  cases hab with
  | refl => exact hbc
  | singles hx hy =>
    cases hbc with
    | refl => exact .singles hx hy
    | singles _ hz => exact .singles hx hz
  | doubles hx hy =>
    cases hbc with
    | refl => exact .doubles hx hy
    | doubles _ hz => exact .doubles hx hz

theorem Equals.kind_eq (h : a.Equals b) : a.kind = b.kind := by
  cases h <;> rfl

theorem kind_ne_list (a : Atom) : a.kind ≠ .list := by
  cases a <;> exact nofun

theorem equals_single_iff {x y : Single} : Equals (.single x) (.single y) ↔ x.Equals y := by
  constructor
  · rintro (_ | ⟨hx, hy⟩ | _)
    · exact .inl rfl
    · exact .inr ⟨hx, hy⟩
  · rintro (rfl | ⟨hx, hy⟩)
    · exact .refl _
    · exact .singles hx hy

theorem equals_double_iff {x y : Double} : Equals (.double x) (.double y) ↔ x.Equals y := by
  constructor
  · rintro (_ | _ | ⟨hx, hy⟩)
    · exact .inl rfl
    · exact .inr ⟨hx, hy⟩
  · rintro (rfl | ⟨hx, hy⟩)
    · exact .refl _
    · exact .doubles hx hy

theorem equals_iff_eq (hs : a.kind ≠ .single) (hd : a.kind ≠ .double) : a.Equals b ↔ a = b := by
  constructor
  · intro h
    cases h with
    | refl => rfl
    | singles => exact absurd rfl hs
    | doubles => exact absurd rfl hd
  · rintro rfl
    exact .refl a

/-- Payloads of one kind are equal exactly if the atoms are. -/
theorem same_payload_iff (ha : a.NotNan) (hkind : a.kind = b.kind) :
    a.payload.same b.payload = true ↔ a.Equals b := by
  cases a with
  | single x =>
    cases b <;> cases hkind
    rw [equals_single_iff, ← Binary.equals_convert FloatFormat.single_within_double,
      ← Binary.sameNumber_iff_equals (Binary.convert_ne_nan .double ha)]
    rfl
  | double x =>
    cases b <;> cases hkind
    rw [equals_double_iff, ← Binary.sameNumber_iff_equals ha]
    rfl
  | symbol s =>
    cases b <;> cases hkind
    rw [equals_iff_eq (by simp [kind]) (by simp [kind]), symbol.injEq]
    exact Symbol.same_toMessage_iff
  | bool p =>
    cases b <;> cases hkind
    rename_i q
    rw [equals_iff_eq (by simp [kind]) (by simp [kind])]
    cases p <;> cases q <;> simp [payload, Message.same, Message.sameLeaf, Message.integer?]
  | _ =>
    cases b <;> cases hkind
    rw [equals_iff_eq (by simp [kind]) (by simp [kind])]
    simp [payload, Message.same, Message.sameLeaf, Message.integer?]

end Atom

namespace Expr

/-- The trees have the same shape, with equal atoms at the same places. -/
inductive Equals : Expr → Expr → Prop where
  | atom {s t : Source} {a b : Atom} (h : a.Equals b) : Equals (.atom s a) (.atom t b)
  | list {s t : Source} {as bs : List Expr} (h : List.Forall₂ Equals as bs) :
      Equals (.list s as) (.list t bs)

variable {a b c : Expr} {s t : Source} {as bs : List Expr}

theorem same_list_iff :
    (list s as).same (.list t bs) = true ↔ List.Forall₂ (fun a b => a.same b = true) as bs := by
  rw [same, toMessage, toMessage, envelope_false, envelope_false, Message.same_sole_iff,
    Message.same_sole_iff, toMessages_eq, toMessages_eq, Message.same_list_iff,
    List.forall₂_map_left_iff, List.forall₂_map_right_iff]
  simp [same]

theorem sameAll_iff : sameAll as bs = true ↔ List.Forall₂ (fun a b => a.same b = true) as bs :=
  elementwise_iff sameAll rfl (fun _ _ _ _ => rfl) (fun _ _ => rfl) (fun _ _ => rfl)

theorem equals_atom_iff {x y : Atom} : Equals (.atom s x) (.atom t y) ↔ x.Equals y := by
  constructor
  · rintro (h | _)
    exact h
  · exact .atom

theorem equals_list_iff : Equals (.list s as) (.list t bs) ↔ List.Forall₂ Equals as bs := by
  constructor
  · rintro (_ | h)
    exact h
  · exact .list

/-- The messages of expressions of different kinds differ in their key. -/
theorem kind_of_same (h : a.same b = true) : a.kind = b.kind := by
  cases a <;> cases b <;>
    · rw [same, toMessage, toMessage, envelope_false, envelope_false, Message.same_sole_iff] at h
      exact Kind.name_inj.1 h.1

/-- Expressions without `nan` are equal exactly if they have the same shape and equal atoms. -/
theorem same_iff_equals (ha : a.Leaves Atom.NotNan) : a.same b = true ↔ a.Equals b := by
  induction a generalizing b with
  | atom s x =>
    rw [leaves_atom] at ha
    cases b with
    | atom t y =>
      rw [same, toMessage, toMessage, envelope_false, envelope_false, Message.same_sole_iff,
        Kind.name_inj, equals_atom_iff]
      constructor
      · rintro ⟨hkind, hsame⟩
        exact (Atom.same_payload_iff ha hkind).1 hsame
      · intro h
        exact ⟨h.kind_eq, (Atom.same_payload_iff ha h.kind_eq).2 h⟩
    | list t bs =>
      constructor
      · intro h
        exact absurd (kind_of_same h) x.kind_ne_list
      · rintro ⟨⟩
  | list s as ih =>
    rw [leaves_list] at ha
    cases b with
    | atom t y =>
      constructor
      · intro h
        exact absurd (kind_of_same h).symm y.kind_ne_list
      · rintro ⟨⟩
    | list t bs =>
      rw [same_list_iff, equals_list_iff]
      exact forall₂_congr_of_mem fun a hmem b => ih a hmem (ha a hmem)

theorem equals_refl (a : Expr) : a.Equals a := by
  induction a with
  | atom s x => exact .atom (.refl x)
  | list s as ih => exact .list (List.forall₂_same.2 ih)

theorem equals_comm : a.Equals b ↔ b.Equals a := by
  induction a generalizing b with
  | atom s x =>
    cases b with
    | atom t y =>
      rw [equals_atom_iff, equals_atom_iff]
      exact ⟨.symm, .symm⟩
    | list t bs => exact ⟨nofun, nofun⟩
  | list s as ih =>
    cases b with
    | atom t y => exact ⟨nofun, nofun⟩
    | list t bs =>
      rw [equals_list_iff, equals_list_iff, forall₂_congr_of_mem fun a ha b => ih a ha]
      exact ⟨List.Forall₂.flip, List.Forall₂.flip⟩

theorem Equals.trans (hab : a.Equals b) (hbc : b.Equals c) : a.Equals c := by
  induction a generalizing b c with
  | atom s x =>
    cases hab with
    | atom hab =>
      cases hbc with
      | atom hbc => exact .atom (hab.trans hbc)
  | list s as ih =>
    cases hab with
    | list hab =>
      cases hbc with
      | list hbc => exact .list (forall₂_trans_of_mem (fun a ha _ _ => ih a ha) hab hbc)

/-- On the expressions without `nan`, equality is an equivalence. -/
theorem equivalence_same :
    Equivalence fun a b : {e : Expr // e.Leaves Atom.NotNan} => a.1.same b.1 = true where
  refl a := (same_iff_equals a.2).2 (equals_refl a.1)
  symm {a b} hab := by
    rw [same_iff_equals a.2] at hab
    exact (same_iff_equals b.2).2 (equals_comm.1 hab)
  trans {a b c} hab hbc := by
    rw [same_iff_equals a.2] at hab
    rw [same_iff_equals b.2] at hbc
    exact (same_iff_equals a.2).2 (hab.trans hbc)

end Expr

/-! ## Programs -/

namespace Node

theorem envelope_false (s : Source) (kind : String) (body : List (String × Message)) :
    envelope false s kind body = .object [(kind, .object body)] := by
  cases s <;> rfl

theorem sameAll_iff {as bs : List Node} :
    sameAll as bs = true ↔ List.Forall₂ (fun a b => a.same b = true) as bs :=
  elementwise_iff sameAll rfl (fun _ _ _ _ => rfl) (fun _ _ => rfl) (fun _ _ => rfl)

/-- Programs are equal exactly if their messages without source contexts are. -/
theorem same_iff_toMessage (n m : Node) :
    n.same m = true ↔ (n.toMessage false).same (m.toMessage false) = true := by
  induction n generalizing m with
  | constant s e =>
    cases m with
    | constant t e' => simp [same, toMessage, envelope_false, Message.same_sole_iff, Expr.same]
    | _ => simp [same, toMessage, envelope_false, Message.same_sole_iff]
  | reference s v =>
    cases m with
    | reference t w =>
      simp [same, toMessage, envelope_false, Message.same_sole_iff, Symbol.same_toMessage_iff]
    | _ => simp [same, toMessage, envelope_false, Message.same_sole_iff]
  | call s f as hf has =>
    cases m with
    | call t g bs =>
      rw [toMessage, toMessage, envelope_false, envelope_false, Message.same_sole_iff,
        Message.same_pair_iff (by decide), toMessages_eq, toMessages_eq, Message.same_list_iff,
        List.forall₂_map_left_iff, List.forall₂_map_right_iff, same, Bool.and_eq_true, hf,
        sameAll_iff, forall₂_congr_of_mem fun a ha b => has a ha b, and_iff_right rfl]
    | _ => simp [same, toMessage, envelope_false, Message.same_sole_iff]
  | ifThen s t a ht ha =>
    cases m with
    | ifThen s' t' a' =>
      rw [toMessage, toMessage, envelope_false, envelope_false, Message.same_sole_iff,
        Message.same_pair_iff (by decide), same, Bool.and_eq_true, ht, ha, and_iff_right rfl]
    | _ => simp [same, toMessage, envelope_false, Message.same_sole_iff, Message.not_same_of_length]
  | ifThenElse s t a b ht ha hb =>
    cases m with
    | ifThenElse s' t' a' b' =>
      rw [toMessage, toMessage, envelope_false, envelope_false, Message.same_sole_iff,
        Message.same_triple_iff (by decide), same, Bool.and_eq_true, Bool.and_eq_true, and_assoc,
        ht, ha, hb, and_iff_right rfl]
    | _ => simp [same, toMessage, envelope_false, Message.same_sole_iff, Message.not_same_of_length]

end Node

/-- The equalities agree. On expressions without `nan` equality is an equivalence and compares
the trees, whatever their source contexts; lists are equal as expressions exactly if they are
equal as lists of elements, and programs exactly if their messages without source contexts are. -/
theorem same_agrees :
    (Equivalence fun a b : {e : Expr // e.Leaves Atom.NotNan} => a.1.same b.1 = true) ∧
      (∀ a b : Expr, a.Leaves Atom.NotNan → b.Leaves Atom.NotNan →
        (a.same b = true ↔ a.Equals b)) ∧
      (∀ (s t : Source) (as bs : List Expr),
        (Expr.list s as).same (.list t bs) = Expr.sameAll as bs) ∧
      ∀ n m : Node, n.same m = (n.toMessage false).same (m.toMessage false) := by
  refine ⟨Expr.equivalence_same, ?_, ?_, ?_⟩
  · intro a b ha _
    exact Expr.same_iff_equals ha
  · intro s t as bs
    rw [Bool.eq_iff_iff, Expr.same_list_iff, Expr.sameAll_iff]
  · intro n m
    rw [Bool.eq_iff_iff]
    exact n.same_iff_toMessage m

theorem same_agrees_zeros :
    (Expr.list (some (.str "a.f:1:1")) [.atom none (.double (.zero .double false)),
      .atom (some .null) (.symbol ⟨"x", "keyword"⟩)]).same
    (.list none [.atom none (.double (.zero .double true)),
      .atom none (.symbol ⟨"x", "keyword"⟩)]) = true := by
  refine (same_agrees.2.1 _ _ ?_ ?_).2 ?_
  · simp [Atom.NotNan]
    decide
  · simp [Atom.NotNan]
    decide
  · exact .list (.cons (.atom (.doubles rfl rfl)) (.cons (.atom (.refl _)) .nil))

end Formulary
