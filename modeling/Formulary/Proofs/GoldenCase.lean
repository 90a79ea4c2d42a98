import Formulary.GoldenCase
import Formulary.Proofs.Equality
import Formulary.Proofs.Expr.Built
import Formulary.Proofs.Number.Literal
import Formulary.Proofs.Program.Message

/-!
# Golden cases are stable

The file that is written for a golden case holds its record: reading it gives the record back with
its fields in order. A text cannot denote `nan`, and so a case whose file has just been written is a
match.
-/
namespace Formulary

namespace Message

/-- Putting the fields in order leaves a message equal. -/
theorem sorted_same {m : Message} (hn : m.Every NotNan) (hk : m.Every DistinctKeys) :
    m.sorted.same m = true := by
  induction m with
  | leaf m hm =>
    rw [sorted_leaf hm]
    exact same_leaf hm ((every_leaf hm).1 hn)
  | list items ih =>
    rw [every_list] at hn hk
    rw [sorted_list, same_list_iff, List.forall₂_map_left_iff, List.forall₂_same]
    exact fun m hm => ih m hm (hn.2 m hm) (hk.2 m hm)
  | object fields ih =>
    rw [every_object] at hn hk
    have hmem : ∀ f ∈ sortByKey fields, f ∈ fields := fun f hf =>
      (sortByKey_perm fields).subset hf
    have hlength : (sortedFields fields).length = fields.length := by
      rw [sortedFields, List.length_map, (sortByKey_perm fields).length_eq]
    have hkeys : (sortedFields fields).map Prod.fst = (sortByKey fields).map Prod.fst := by
      rw [sortedFields, List.map_map]
      rfl
    rw [sorted_object, same, hlength, beq_self_eq_true, Bool.true_and,
      sameFields_iff hkeys fun f hf => lookup_of_mem hk.1 (hmem f hf), sortedFields,
      List.forall₂_map_left_iff, List.forall₂_same]
    exact fun f hf => ih f (hmem f hf) (hn.2 f (hmem f hf)) (hk.2 f (hmem f hf))

end Message

/-! ## Texts denote no `nan` -/

theorem Form.notNan_toAtom {pos : Position} {text : List Char} {a : Atom}
    (h : (ofWord pos text).toAtom = .ok a) : a.NotNan := by
  unfold ofWord at h
  split at h
  next hnumeral =>
    obtain ⟨d, hd⟩ := Option.isSome_iff_exists.1 hnumeral
    by_cases hwhole : Numeral.isWhole text = true
    · rw [if_pos hwhole, toAtom] at h
      split at h
      · cases h
      · split_ifs at h
        cases h
        trivial
    · rw [if_neg hwhole] at h
      simp only [toAtom, Numeral.floatLiteral?_of_read? hd] at h
      cases h
      exact Binary.ofDecimal_ne_nan .double d
  next =>
    rw [toAtom] at h
    split at h
    · cases h
    · cases h
      trivial

theorem Form.Readable.notNan {form : Form} (hform : form.Readable) {e : Expr}
    (h : form.toExpr = .ok e) : e.Leaves Atom.NotNan := by
  induction hform generalizing e with
  | string pos value =>
    obtain ⟨a, ha, rfl⟩ := exists_toAtom_of_toExpr (by simp) h
    cases ha
    exact Expr.leaves_atom.2 trivial
  | @word pos text hword =>
    have hleaf : ∀ pos' items, ofWord pos text ≠ .list pos' items := by
      intro pos' items
      unfold ofWord
      split <;> simp
    obtain ⟨a, ha, rfl⟩ := exists_toAtom_of_toExpr hleaf h
    exact Expr.leaves_atom.2 (notNan_toAtom ha)
  | list pos _ ih =>
    rw [toExpr] at h
    obtain ⟨es, hes, rfl⟩ := map_ok_iff.1 h
    rw [Expr.leaves_list]
    intro d hd
    obtain ⟨form, hmem, hform⟩ := exists_mem_of_forall₂ (Expr.toExprs_ok hes) d hd
    exact ih form hmem hform

theorem Expr.notNan_of_parse {file : String} {source : List Char} {e : Expr}
    (h : parse file source = .ok e) : e.Leaves Atom.NotNan := by
  obtain ⟨form, reader, hread, hform⟩ := exists_form_of_parse h
  exact (Form.readable_readForm hread).notNan hform

theorem Expr.notNan_constant {source : Source} {a : Atom} {n : Node} (ha : a.NotNan)
    (hsymbol : ∀ s, a ≠ .symbol s) (h : constant source a = .ok n) :
    ∀ c ∈ n.constants, c.Leaves Atom.NotNan := by
  cases a with
  | int k m =>
    rw [constant] at h
    split_ifs at h
    cases h
    exact List.forall_mem_singleton.2 (leaves_atom.2 trivial)
  | symbol s => exact absurd rfl (hsymbol s)
  | _ =>
    cases h
    exact List.forall_mem_singleton.2 (leaves_atom.2 ha)

theorem Node.every_notNan_toMessage {n : Node} (h : ∀ e ∈ n.constants, e.Leaves Atom.NotNan) :
    (n.toMessage false).Every Message.NotNan := by
  have henvelope {s : Source} {kind : String} {body : List (String × Message)}
      (hbody : ∀ f ∈ body, f.2.Every Message.NotNan) :
      (envelope false s kind body).Every Message.NotNan := by
    rw [envelope_false, Message.every_object, List.forall_mem_singleton, Message.every_object]
    exact ⟨trivial, trivial, hbody⟩
  induction n with
  | constant s e =>
    rw [constants, List.forall_mem_singleton] at h
    exact henvelope (List.forall_mem_singleton.2 (Expr.every_notNan_toMessage h))
  | reference s v =>
    refine henvelope (List.forall_mem_singleton.2 ?_)
    exact Symbol.every_toMessage (fun _ => trivial) trivial
  | call s f as hf has =>
    rw [constants, constantsAll_eq, List.forall_mem_append] at h
    have hargs : (Message.list (as.map (toMessage false))).Every Message.NotNan := by
      rw [Message.every_list, List.forall_mem_map]
      exact ⟨trivial, fun n hn => has n hn fun e he => h.2 e (List.mem_flatMap.2 ⟨n, hn, he⟩)⟩
    rw [toMessage, toMessages_eq]
    refine henvelope ?_
    simp [hf h.1, hargs]
  | ifThen s t a ht ha =>
    rw [constants, List.forall_mem_append] at h
    refine henvelope ?_
    simp [ht h.1, ha h.2]
  | ifThenElse s t a b ht ha hb =>
    rw [constants, List.forall_mem_append, List.forall_mem_append] at h
    refine henvelope ?_
    simp [ht h.1.1, ha h.1.2, hb h.2]

/-! ## Records -/

namespace GoldenCase

open Message (Loadable)

/-- What is recorded is the formula, and with it the program without source contexts or the kind of
the failure, which is one of the library's own. -/
inductive Records (formula : String) : Message → Prop
  | program {e : Expr} {n : Node} (he : Expr.parse "" formula.toList = .ok e)
      (hn : e.compile .standard = .ok n) :
      Records formula (.object [("input_formula", .str formula), ("ast", n.toMessage false)])
  | unread {cause : ParseError} (he : Expr.parse "" formula.toList = .error cause)
      (hown : cause.kind.isOwn = true) :
      Records formula (.object [("input_formula", .str formula), ("error", .str cause.kind.name)])
  | uncompiled {e : Expr} {cause : CompileError} (he : Expr.parse "" formula.toList = .ok e)
      (hn : e.compile .standard = .error cause) (hown : cause.kind.isOwn = true) :
      Records formula (.object [("input_formula", .str formula), ("error", .str cause.kind.name)])

variable {formula : String} {m : Message}

theorem records_of_record (h : record formula = .ok m) : Records formula m := by
  unfold record at h
  cases he : Expr.parse "" formula.toList with
  | error cause =>
    have hkind : cause.failure.kind = cause.kind := rfl
    simp only [he, Except.mapError, error_bind, hkind] at h
    split at h
    next hown =>
      cases h
      exact .unread he hown
    next => cases h
  | ok e =>
    simp only [he, Except.mapError, ok_bind] at h
    cases hn : e.compile .standard with
    | error cause =>
      have hkind : cause.failure.kind = cause.kind := rfl
      simp only [hn, hkind] at h
      split at h
      next hown =>
        cases h
        exact .uncompiled he hn hown
      next => cases h
    | ok n =>
      simp only [hn] at h
      cases h
      exact .program he hn

theorem loadable_pair {key : String} (hkey : key ≠ "input_formula" ∧ key ≠ "bytes") {part : Message}
    (hbytes : part.isBytes = false) (h : part.Every (Loadable .standard)) :
    (Message.object [("input_formula", .str formula), (key, part)]).Every (Loadable .standard) := by
  have hformula : (Message.str formula).Every (Loadable .standard) :=
    Message.loadable_leaf rfl trivial
  refine Message.loadable_object ?_ ?_ ?_
  · simpa using hkey.1.symm
  · have hstr : (Message.str formula).isBytes = false := rfl
    simp [hkey.2, hbytes, hstr]
  · simp [hformula, h]

theorem loadable_program {e : Expr} {n : Node} (h : e.compile .standard = .ok n) :
    (n.toMessage false).isBytes = false ∧ (n.toMessage false).Every (Loadable .standard) := by
  rw [← n.toMessage_relocate_none]
  refine ⟨Node.isBytes_toMessage _, Node.loadable_toMessage ?_ ?_⟩
  · rw [Node.constants_relocate, List.forall_mem_map]
    intro c hc
    exact Expr.wellFormed_bare.2
      (Expr.wellFormed_iff.2 ((Expr.leaves_constants h c hc).imp fun _ => Atom.Compiled.wellFormed))
  · rw [Node.sources_relocate, List.forall_mem_map]
    exact fun _ _ => Source.textual_none

theorem Records.loadable (h : Records formula m) :
    ∃ fields, m = .object fields ∧ m.Every (Loadable .standard) := by
  have hstr (s : String) : (Message.str s).Every (Loadable .standard) :=
    Message.loadable_leaf rfl trivial
  cases h with
  | program he hn =>
    obtain ⟨hbytes, hprogram⟩ := loadable_program hn
    exact ⟨_, rfl, loadable_pair (by decide) hbytes hprogram⟩
  | unread he hown => exact ⟨_, rfl, loadable_pair (by decide) rfl (hstr _)⟩
  | uncompiled he hn hown => exact ⟨_, rfl, loadable_pair (by decide) rfl (hstr _)⟩

theorem Records.notNan (h : Records formula m) : m.Every Message.NotNan := by
  have hstr (s : String) : (Message.str s).Every Message.NotNan :=
    (Message.every_leaf rfl).2 trivial
  cases h with
  | program he hn =>
    have hconstants :=
      Expr.leaves_constants_of Expr.notNan_constant (Expr.notNan_of_parse he) hn
    rw [Message.every_object]
    refine ⟨trivial, ?_⟩
    simp [hstr, Node.every_notNan_toMessage hconstants]
  | unread he hown =>
    rw [Message.every_object]
    exact ⟨trivial, by simp [hstr]⟩
  | uncompiled he hn hown =>
    rw [Message.every_object]
    exact ⟨trivial, by simp [hstr]⟩

/-- The file that is written for a case holds its record, and the case is a match with it. -/
theorem load_written {c c' : GoldenCase} (h : c.regenerate = .ok c') :
    ∃ m, Records c.formula m ∧ c'.regenerated? = some m ∧
      Message.load c'.written.2 = .ok m.sorted ∧
      { c' with golden? := some m.sorted }.isMatch = true := by
  obtain ⟨m, hm, hc⟩ := bind_ok_iff.1 h
  cases hc
  have hrecords := records_of_record hm
  have hnotNan := hrecords.notNan
  obtain ⟨fields, rfl, hloadable⟩ := hrecords.loadable
  have hgap : Message.IsGap "\n".toList := Message.isGap_lineBreak 0 0
  exact ⟨_, hrecords, rfl, Message.load_write_gap (some 2) hloadable hgap,
    Message.sorted_same hnotNan (hloadable.imp fun _ => Loadable.distinctKeys)⟩

end GoldenCase

end Formulary
