import Formulary.Form.Reader

/-!
# Reading token by token

A form is read by showing the next token and taking it, until the form is complete or an error
shows. The forms of a text are those that are read one after the other.
-/
namespace Formulary

/-- The errors that the lexer gives rise to. -/
def ReadError.isLexical : ReadError → Bool
  | .unterminatedString _ | .unterminatedComment _ | .unexpectedCharacter _ _ => true
  | .unmatchedOpening _ | .unexpectedClosing _ | .badEscape _ _ _ => false

theorem LexFault.isLexical_error (lines : LineIndex) (fault : LexFault) :
    (fault.error lines).isLexical = true := by
  obtain ⟨kind, offset⟩ := fault
  cases kind <;> rfl

namespace Form

variable {lines : LineIndex} {stack : List Frame}

theorem isLexical_of_step {t : Token} {e : ReadError} (h : step lines stack t = .error e) :
    e.isLexical = false := by
  obtain ⟨kind, text, offset⟩ := t
  cases kind with
  | opening => cases h
  | closing =>
    cases stack with
    | nil => cases h; rfl
    | cons frame stack => cases h
  | string =>
    simp only [step] at h
    split at h
    · cases h
    · cases h; rfl
  | word => cases h

theorem isLexical_of_atEnd {e : ReadError} (h : atEnd lines none stack = some e) :
    e.isLexical = false := by
  cases stack with
  | nil => cases h
  | cons frame stack => cases h; rfl

/-- How many tokens the reading of one form asks for: one more than there are, if they end before
the form does. -/
def demand (lines : LineIndex) (stack : List Frame) : List Token → Nat
  | [] => 1
  | t :: ts =>
    match step lines stack t with
    | .ok (.more stack) => demand lines stack ts + 1
    | _ => 1

theorem demand_pos (lines : LineIndex) (stack : List Frame) (ts : List Token) :
    0 < demand lines stack ts := by
  cases ts with
  | nil => exact Nat.one_pos
  | cons t ts =>
    rw [demand]
    split <;> exact Nat.succ_pos _

/-- The reading of one form ends within the tokens, or it uses them all and asks for one more. -/
inductive Reading (lines : LineIndex) (stack : List Frame) (ts : List Token) : Prop where
  | read (form : Form) (rest : List Token) (h : readOne lines stack ts = (.read form, rest))
      (hdemand : demand lines stack ts + rest.length = ts.length)
  | failed (e : ReadError) (rest : List Token) (h : readOne lines stack ts = (.failed e, rest))
      (he : e.isLexical = false) (hdemand : demand lines stack ts + rest.length = ts.length)
  | exhausted (stack' : List Frame) (h : readOne lines stack ts = (.exhausted stack', []))
      (hdemand : demand lines stack ts = ts.length + 1)

theorem reading (lines : LineIndex) (stack : List Frame) (ts : List Token) :
    Reading lines stack ts := by
  induction ts generalizing stack with
  | nil => exact .exhausted stack rfl rfl
  | cons t ts ih =>
    cases hstep : step lines stack t with
    | error e =>
      refine .failed e ts (by rw [readOne, hstep]) (isLexical_of_step hstep) ?_
      simp only [demand, hstep, List.length_cons]
      omega
    | ok s =>
      cases s with
      | done form =>
        refine .read form ts (by rw [readOne, hstep]) ?_
        simp only [demand, hstep, List.length_cons]
        omega
      | more stack' =>
        have hone : readOne lines stack (t :: ts) = readOne lines stack' ts := by
          rw [readOne, hstep]
        have hdemand : demand lines stack (t :: ts) = demand lines stack' ts + 1 := by
          rw [demand, hstep]
        cases ih stack' with
        | read form rest h hd =>
          refine .read form rest (hone.trans h) ?_
          rw [hdemand, List.length_cons]
          omega
        | failed e rest h he hd =>
          refine .failed e rest (hone.trans h) he ?_
          rw [hdemand, List.length_cons]
          omega
        | exhausted open' h hd =>
          refine .exhausted open' (hone.trans h) ?_
          rw [hdemand, hd, List.length_cons]

/-- To read every form is to read the first one and then every other. -/
theorem readMany_eq (fault? : Option LexFault) (ts : List Token) :
    readMany lines fault? stack ts = match readOne lines stack ts with
      | (.read form, us) =>
        (form :: (readMany lines fault? [] us).1, (readMany lines fault? [] us).2)
      | (.failed e, _) => ([], some e)
      | (.exhausted stack', _) => ([], atEnd lines fault? stack') := by
  induction ts generalizing stack with
  | nil => rfl
  | cons t ts ih =>
    rw [readMany, readOne]
    cases step lines stack t with
    | error e => rfl
    | ok s =>
      cases s with
      | done form => rfl
      | more stack => exact ih

end Form

namespace Reader

/-- The tokens that have not been consumed. -/
def pending (r : Reader) : List Token := r.lookahead ++ r.tokens

/-- The reader that has nothing more to give. -/
def ended (r : Reader) : Reader := ⟨r.lines, [], [], none⟩

/-- The tokens that a result hands out. -/
def handedOut : Except ReadError (Option Token) → List Token
  | .ok (some t) => [t]
  | _ => []

theorem pending_advance_lt {r r' : Reader} {t : Token} (h : r.peek = (.ok (some t), r')) :
    r'.advance.2.pending.length < r.pending.length := by
  obtain ⟨lines, lookahead, ts, fault?⟩ := r
  cases lookahead with
  | cons u us =>
    cases h
    simp [advance, pending]
  | nil =>
    cases ts with
    | cons u us =>
      cases h
      simp [advance, pending]
    | nil => cases fault? <;> cases h

/-- Reads a form by peeking and advancing, token by token. The tokens that were handed out on the
way come first. -/
def pull (stack : List Form.Frame) (r : Reader) :
    List Token × Except ReadError (Option Form) × Reader :=
  match _h : r.peek with
  | (.error e, r') => ([], .error e, r')
  | (.ok none, r') =>
    match stack with
    | [] => ([], .ok none, r')
    | frame :: _ => ([], .error (.unmatchedOpening frame.pos), r')
  | (.ok (some t), r') =>
    let ts := handedOut r'.advance.1
    match Form.step r.lines stack t with
    | .error e => (ts, .error e, r'.advance.2)
    | .ok (.done form) => (ts, .ok (some form), r'.advance.2)
    | .ok (.more stack) =>
      let (us, result) := pull stack r'.advance.2
      (ts ++ us, result)
termination_by r.pending.length
decreasing_by exact pending_advance_lt _h

variable {r : Reader} {t : Token} {ts : List Token}

theorem peek_cons (h : r.lookahead.length ≤ 1) (hp : r.pending = t :: ts) :
    r.peek = (.ok (some t), ⟨r.lines, [t], ts, r.fault?⟩) := by
  obtain ⟨lines, lookahead, us, fault?⟩ := r
  match lookahead, h with
  | [], _ =>
    obtain rfl : us = t :: ts := hp
    rfl
  | [u], _ =>
    obtain ⟨rfl, rfl⟩ : u = t ∧ us = ts := List.cons.inj hp
    rfl

theorem advance_cons (h : r.lookahead.length ≤ 1) (hp : r.pending = t :: ts) :
    r.advance = (.ok (some t), ⟨r.lines, [], ts, r.fault?⟩) := by
  obtain ⟨lines, lookahead, us, fault?⟩ := r
  match lookahead, h with
  | [], _ =>
    obtain rfl : us = t :: ts := hp
    rfl
  | [u], _ =>
    obtain ⟨rfl, rfl⟩ : u = t ∧ us = ts := List.cons.inj hp
    rfl

theorem eq_of_pending_nil (hp : r.pending = []) : r = ⟨r.lines, [], [], r.fault?⟩ := by
  obtain ⟨lines, lookahead, us, fault?⟩ := r
  obtain ⟨rfl, rfl⟩ := List.append_eq_nil_iff.1 hp
  rfl

theorem pull_nil (hp : r.pending = []) (stack : List Form.Frame) :
    r.pull stack = ([], (match Form.atEnd r.lines r.fault? stack with
      | some e => .error e
      | none => .ok none), r.ended) := by
  rw [eq_of_pending_nil hp]
  obtain ⟨lines, -, -, fault?⟩ := r
  rw [pull.eq_def]
  cases fault? <;> cases stack <;> rfl

theorem pull_cons (h : r.lookahead.length ≤ 1) (hp : r.pending = t :: ts)
    (stack : List Form.Frame) :
    r.pull stack = match Form.step r.lines stack t with
      | .error e => ([t], .error e, ⟨r.lines, [], ts, r.fault?⟩)
      | .ok (.done form) => ([t], .ok (some form), ⟨r.lines, [], ts, r.fault?⟩)
      | .ok (.more stack) =>
        (t :: (pull stack ⟨r.lines, [], ts, r.fault?⟩).1,
          (pull stack ⟨r.lines, [], ts, r.fault?⟩).2) := by
  rw [pull.eq_def, peek_cons h hp]
  rfl

/-- What the reading of a form gives, with some lists open. -/
def ofOutcome (r : Reader) : Form.Outcome × List Token → Except ReadError (Option Form) × Reader
  | (.read form, ts) => (.ok (some form), ⟨r.lines, [], ts, r.fault?⟩)
  | (.failed e, ts) => (.error e, ⟨r.lines, [], ts, r.fault?⟩)
  | (.exhausted stack, ts) =>
    (match Form.atEnd r.lines r.fault? stack with
      | some e => .error e
      | none => .ok none, ⟨r.lines, [], ts, none⟩)

theorem readForm_eq (r : Reader) : r.readForm = r.ofOutcome (Form.readOne r.lines [] r.pending) := by
  rw [readForm, pending]
  generalize Form.readOne r.lines [] (r.lookahead ++ r.tokens) = result
  obtain ⟨outcome, ts⟩ := result
  cases outcome with
  | read form => rfl
  | failed e => rfl
  | exhausted stack =>
    simp only [ofOutcome]
    split <;> simp_all

/-- To read a form is to peek and to advance until it is complete. -/
theorem pull_eq (h : r.lookahead.length ≤ 1) (stack : List Form.Frame) :
    (r.pull stack).2 = r.ofOutcome (Form.readOne r.lines stack r.pending) := by
  generalize hp : r.pending = ts
  induction ts generalizing r stack with
  | nil => rw [pull_nil hp, Form.readOne, ofOutcome, ended]
  | cons t ts ih =>
    rw [pull_cons h hp, Form.readOne]
    cases Form.step r.lines stack t with
    | error e => rfl
    | ok s =>
      cases s with
      | done form => rfl
      | more stack => exact ih (by simp) stack rfl

theorem readForm_eq_pull (h : r.lookahead.length ≤ 1) : r.readForm = (r.pull []).2 := by
  rw [readForm_eq, pull_eq h]

theorem pull_append (h : r.lookahead.length ≤ 1) (stack : List Form.Frame) :
    (r.pull stack).1 ++ (r.pull stack).2.2.pending = r.pending := by
  generalize hp : r.pending = ts
  induction ts generalizing r stack with
  | nil => rw [pull_nil hp]; rfl
  | cons t ts ih =>
    rw [pull_cons h hp]
    cases Form.step r.lines stack t with
    | error e => rfl
    | ok s =>
      cases s with
      | done form => rfl
      | more stack => exact congrArg (t :: ·) (ih (by simp) stack rfl)

/-! ## Form after form -/

theorem readForm_lt {r' : Reader} {form : Form} (h : r.readForm = (.ok (some form), r')) :
    r'.pending.length < r.pending.length := by
  rw [readForm_eq] at h
  cases Form.reading r.lines [] r.pending with
  | read form' rest hone hdemand =>
    rw [hone] at h
    cases h
    have := Form.demand_pos r.lines [] r.pending
    simp only [pending, List.nil_append] at hdemand this ⊢
    omega
  | failed e rest hone _ _ => rw [hone] at h; cases h
  | exhausted stack hone _ =>
    rw [hone] at h
    simp only [ofOutcome] at h
    split at h <;> cases h

/-- The forms that are read one after the other, up to the error that ends them. -/
def deliver (r : Reader) : List Form × Option ReadError :=
  match _h : r.readForm with
  | (.ok (some form), r') =>
    let (forms, e?) := r'.deliver
    (form :: forms, e?)
  | (.ok none, _) => ([], none)
  | (.error e, _) => ([], some e)
termination_by r.pending.length
decreasing_by exact readForm_lt _h

theorem readMany_pending (r : Reader) :
    Form.readMany r.lines r.fault? [] r.pending = match r.readForm with
      | (.ok (some form), r') =>
        (form :: (Form.readMany r'.lines r'.fault? [] r'.pending).1,
          (Form.readMany r'.lines r'.fault? [] r'.pending).2)
      | (.ok none, _) => ([], none)
      | (.error e, _) => ([], some e) := by
  rw [readForm_eq, Form.readMany_eq]
  cases Form.reading r.lines [] r.pending with
  | read form rest hone _ => rw [hone]; rfl
  | failed e rest hone _ _ => rw [hone]; rfl
  | exhausted stack hone _ =>
    rw [hone]
    cases hend : Form.atEnd r.lines r.fault? stack <;> simp only [ofOutcome, hend]

theorem deliver_eq (r : Reader) : r.deliver = Form.readMany r.lines r.fault? [] r.pending := by
  fun_induction deliver r with
  | case1 r form r' h forms e? hrest ih =>
    rw [readMany_pending, h]
    dsimp only
    rw [← ih, hrest]
  | case2 r r' h => rw [readMany_pending, h]
  | case3 r e r' h => rw [readMany_pending, h]

theorem deliver_ofSource (file : String) (source : List Char) :
    (ofSource file source).deliver = Form.readAll file source := deliver_eq _

theorem mem_of_readForm {file : String} {source : List Char} {form : Form} {r : Reader}
    (h : (ofSource file source).readForm = (.ok (some form), r)) :
    form ∈ (Form.readAll file source).1 := by
  rw [← deliver_ofSource, deliver_eq, readMany_pending, h]
  exact List.mem_cons_self

end Reader

end Formulary
