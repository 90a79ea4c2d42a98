import Formulary.Proofs.Form.Balance
import Formulary.Proofs.Outcome

/-!
# How reading fails

A literal that the lexer cut out is made of plain characters and of backslashes with the character
behind them, and so are its rests behind each escape: no escape is cut off by the end of the
literal. What is left are the errors of the reader, and escapes whose code is that of no character.
-/
namespace Formulary

open Token (Quoted Lexeme)

/-! ## Escapes -/

namespace Escape

/-- The code that an escape by number names, if its digits follow the letter. -/
def code? (letter : Char) (cs : List Char) : Option Nat := do
  let width ← width? letter
  if width ≤ cs.length then Text.ofHex? (cs.take width) else none

/-- The codes that the escapes by number name, from left to right. -/
def codes : List Char → List Nat
  | '\\' :: letter :: rest => (code? letter rest).toList ++ codes rest
  | _ :: rest => codes rest
  | [] => []

theorem codes_escape (letter : Char) (rest : List Char) :
    codes ('\\' :: letter :: rest) = (code? letter rest).toList ++ codes rest := by
  rw [codes]

theorem codes_plain {c : Char} (hc : c ≠ '\\') (rest : List Char) :
    codes (c :: rest) = codes rest := by
  rw [codes]
  exact fun _ _ h _ => hc h

theorem codes_run {run : List Char} (hrun : ∀ c ∈ run, c ≠ '\\') (rest : List Char) :
    codes (run ++ rest) = codes rest := by
  induction run with
  | nil => rfl
  | cons c run ih =>
    rw [List.forall_mem_cons] at hrun
    rw [List.cons_append, codes_plain hrun.1, ih hrun.2]

theorem quoted_of_cons {c : Char} {cs : List Char} (hc : c ≠ '\\') (h : Quoted (c :: cs)) :
    Quoted cs := by
  cases h with
  | escape => exact absurd rfl hc
  | plain _ _ h => exact h

theorem quoted_of_run {run rest : List Char} (hrun : ∀ c ∈ run, c ≠ '\\')
    (h : Quoted (run ++ rest)) : Quoted rest := by
  induction run with
  | nil => exact h
  | cons c run ih =>
    rw [List.forall_mem_cons] at hrun
    exact ih hrun.2 (quoted_of_cons hrun.1 h)

/-- The digits of an escape are plain characters, so that the rest of a literal behind them is cut
as before. -/
theorem behind_digits {letter : Char} {width code : Nat} {cs : List Char}
    (hwidth : width? letter = some width) (hcode : code? letter cs = some code)
    (hcs : Quoted cs) : Quoted (cs.drop width) ∧ codes (cs.drop width) = codes cs := by
  have hdigits : Text.ofHex? (cs.take width) = some code := by
    simp only [code?, hwidth, Option.bind_eq_bind, Option.bind_some] at hcode
    split_ifs at hcode
    exact hcode
  have hplain : ∀ c ∈ cs.take width, c ≠ '\\' := by
    rintro c hc rfl
    exact absurd (Text.isSome_hexValue?_of_ofHex? hdigits _ hc) (by decide)
  rw [← List.take_append_drop width cs] at hcs
  refine ⟨quoted_of_run hplain hcs, ?_⟩
  rw [← codes_run hplain, List.take_append_drop]

theorem charOfDigits_eq {letter : Char} {width : Nat} (h : width? letter = some width)
    (cs : List Char) : charOfDigits letter width cs =
      match code? letter cs with
      | some code => charOfCode code
      | none => .error (.badDigits letter) := by
  simp only [charOfDigits, code?, h, Option.bind_eq_bind, Option.bind_some]
  split_ifs <;> rfl

/-- Resolving a literal fails at an escape that is none, or at one that names no character. -/
theorem resolve_error {body : List Char} {e : EscapeError} (hq : Quoted body)
    (h : resolve body = .error e) :
    e.kind = .reading ∨ ∃ code ∈ codes body, ¬ code.isValidChar ∧ e = .noCharacter code := by
  -- behind an escape by number the rest starts past its digits, so the induction is on the length
  induction hn : body.length using Nat.strong_induction_on generalizing body e with
  | _ n ih =>
    subst hn
    cases hq with
    | nil =>
      rw [resolve] at h
      cases h
    | @plain c cs hb _ hcs =>
      rw [resolve_plain hb, map_error_iff] at h
      rw [codes_plain hb]
      exact ih cs.length (by simp) hcs h rfl
    | @escape cs letter hcs =>
      rw [resolve, if_pos rfl] at h
      rw [codes_escape]
      split at h
      · rw [map_error_iff] at h
        refine (ih cs.length (by simp only [List.length_cons]; omega) hcs h rfl).imp_right ?_
        rintro ⟨code, hcode, he⟩
        exact ⟨code, List.mem_append_right _ hcode, he⟩
      next width _ hwidth =>
        rw [charOfDigits_eq hwidth] at h
        cases hcode : code? letter cs with
        | none =>
          rw [hcode] at h
          cases h
          exact .inl rfl
        | some code =>
          rw [hcode] at h
          dsimp only at h
          by_cases hvalid : code.isValidChar
          · obtain ⟨hrest, hcodes⟩ := behind_digits hwidth hcode hcs
            have hlt : (cs.drop width).length < ('\\' :: letter :: cs).length := by
              simp only [List.length_drop, List.length_cons]
              omega
            rw [charOfCode, dif_pos hvalid] at h
            cases hr : resolve (cs.drop width) with
            | ok text => rw [hr] at h; cases h
            | error cause =>
              rw [hr] at h
              cases h
              refine (ih _ hlt hrest hr rfl).imp_right ?_
              rintro ⟨code', hcode', he⟩
              exact ⟨code', List.mem_append_right _ (hcodes ▸ hcode'), he⟩
          · rw [charOfCode, dif_neg hvalid] at h
            cases h
            exact .inr ⟨code, by simp, hvalid, rfl⟩
      · cases h
        exact .inl rfl

end Escape

/-- The codes that the escapes of a string literal name. -/
def Token.codes (t : Token) : List Nat :=
  if t.kind = .string then Escape.codes (t.text.drop 1).dropLast else []

/-- The codes that the escapes in the string literals of a text name. -/
def escapeCodes (source : List Char) : List Nat := (lex source).tokens.flatMap Token.codes

/-- The failure of an escape whose code is that of no character. -/
def RefusedCode (codes : List Nat) (kind : FailureKind) : Prop :=
  ∃ code ∈ codes, ¬ code.isValidChar ∧ kind = (EscapeError.noCharacter code).kind

/-- The kinds with which reading can fail where the escapes name the codes. -/
def FailsWith (codes : List Nat) (kind : FailureKind) : Prop :=
  kind = .reading ∨ RefusedCode codes kind

theorem FailsWith.mono {codes codes' : List Nat} {kind : FailureKind} (h : FailsWith codes kind)
    (hsub : codes ⊆ codes') : FailsWith codes' kind :=
  h.imp_right fun ⟨code, hcode, hkind⟩ => ⟨code, hsub hcode, hkind⟩

/-! ## Reading -/

namespace Form

variable {lines : LineIndex} {stack : List Frame}

theorem failsWith_step {t : Token} {e : ReadError} (ht : Lexeme t.kind t.text)
    (h : step lines stack t = .error e) : FailsWith t.codes e.kind := by
  obtain ⟨kind, text, offset⟩ := t
  dsimp only at ht
  cases ht with
  | opening => cases h
  | closing =>
    cases stack with
    | nil =>
      cases h
      exact .inl rfl
    | cons frame stack => cases h
  | @string body hbody =>
    have hinside : (('\x22' :: (body ++ ['\x22'])).drop 1).dropLast = body := by simp
    simp only [step] at h
    split at h
    · cases h
    next cause hcause =>
      cases h
      rw [unescape, hinside] at hcause
      refine (Escape.resolve_error hbody hcause).imp id ?_
      rintro ⟨code, hcode, hvalid, rfl⟩
      exact ⟨code, by rwa [Token.codes, if_pos rfl, hinside], hvalid, rfl⟩
  | word => cases h

theorem failsWith_readOne {ts rest : List Token} {e : ReadError}
    (hts : ∀ t ∈ ts, Lexeme t.kind t.text) (h : readOne lines stack ts = (.failed e, rest)) :
    FailsWith (ts.flatMap Token.codes) e.kind := by
  induction ts generalizing stack with
  | nil => cases h
  | cons t ts ih =>
    rw [List.forall_mem_cons] at hts
    rw [List.flatMap_cons]
    rw [readOne] at h
    split at h
    next hstep =>
      cases h
      exact (failsWith_step hts.1 hstep).mono (List.subset_append_left _ _)
    next => cases h
    next => exact (ih hts.2 h).mono (List.subset_append_right _ _)

theorem kind_fault (lines : LineIndex) (fault : LexFault) :
    (fault.error lines).kind = .reading := by
  unfold LexFault.error
  split <;> rfl

theorem kind_atEnd {fault? : Option LexFault} {e : ReadError}
    (h : atEnd lines fault? stack = some e) : e.kind = .reading := by
  cases fault? with
  | some fault =>
    cases h
    exact kind_fault lines fault
  | none =>
    cases stack with
    | nil => cases h
    | cons frame stack =>
      cases h
      rfl

theorem failsWith_readMany {fault? : Option LexFault} {ts : List Token} {e : ReadError}
    (hts : ∀ t ∈ ts, Lexeme t.kind t.text) (h : (readMany lines fault? stack ts).2 = some e) :
    FailsWith (ts.flatMap Token.codes) e.kind := by
  induction ts generalizing stack with
  | nil => exact .inl (kind_atEnd h)
  | cons t ts ih =>
    rw [List.forall_mem_cons] at hts
    rw [List.flatMap_cons]
    rw [readMany] at h
    split at h
    next hstep =>
      cases h
      exact (failsWith_step hts.1 hstep).mono (List.subset_append_left _ _)
    next => exact (ih hts.2 h).mono (List.subset_append_right _ _)
    next => exact (ih hts.2 h).mono (List.subset_append_right _ _)

theorem failsWith_readAll {file : String} {source : List Char} {e : ReadError}
    (h : (readAll file source).2 = some e) : FailsWith (escapeCodes source) e.kind :=
  failsWith_readMany lexeme_of_mem_lex h

end Form

namespace Reader

theorem failsWith_readForm {file : String} {source : List Char} {e : ReadError} {r : Reader}
    (h : (ofSource file source).readForm = (.error e, r)) :
    FailsWith (escapeCodes source) e.kind := by
  unfold readForm at h
  split at h
  next => cases h
  next e' ts hread =>
    cases h
    exact Form.failsWith_readOne Form.lexeme_of_mem_lex hread
  next =>
    dsimp only at h
    split at h
    next hend =>
      cases h
      exact .inl (Form.kind_atEnd hend)
    next => cases h

theorem kind_next {r : Reader} {e : ReadError} (h : r.next.1 = .error e) : e.kind = .reading := by
  unfold next at h
  split at h
  next => cases h
  next fault _ _ =>
    cases h
    exact Form.kind_fault r.lines fault
  next => cases h

theorem kind_peek {r : Reader} {e : ReadError} (h : r.peek.1 = .error e) : e.kind = .reading := by
  unfold peek at h
  split at h
  next => cases h
  next =>
    split at h
    next => cases h
    next => exact kind_next h

end Reader

end Formulary
