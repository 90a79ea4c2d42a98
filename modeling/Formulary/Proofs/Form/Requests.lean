import Formulary.Proofs.Form.Reader
import Mathlib.Data.List.Induction

/-!
# Readers in use

A reader is asked for the next token, to show it or to hand it out, and for the next form, in any
order and also after errors. It still has to give the tokens that are pending and the fault behind
them. A request takes tokens from the front, and only one that asks for more tokens than there are
comes to the fault.
-/
namespace Formulary.Reader

/-- What can be asked of a reader. -/
inductive Request where
  | peek
  | advance
  | readForm
deriving DecidableEq, Repr

inductive Answer where
  | token (result : Except ReadError (Option Token))
  | form (result : Except ReadError (Option Form))

def Answer.error? : Answer → Option ReadError
  | .token (.error e) => some e
  | .form (.error e) => some e
  | _ => none

/-- The answer at the end of the text: nothing, or the error that the end gives rise to. -/
def Request.ending (e? : Option ReadError) : Request → Answer
  | .readForm => .form (match e? with | some e => .error e | none => .ok none)
  | _ => .token (match e? with | some e => .error e | none => .ok none)

def ask (r : Reader) : Request → Answer × Reader
  | .peek => (.token r.peek.1, r.peek.2)
  | .advance => (.token r.advance.1, r.advance.2)
  | .readForm => (.form r.readForm.1, r.readForm.2)

/-- The same reader with nothing looked at. -/
def rewind (r : Reader) : Reader := ⟨r.lines, [], r.pending, r.fault?⟩

/-- The tokens that a request consumes: those that are handed out, not those that are shown. -/
def takes (r : Reader) : Request → List Token
  | .peek => []
  | .advance => handedOut r.advance.1
  | .readForm => (r.pull []).1

/-- How many tokens a request asks for, counted from the first that has not been consumed. -/
def demand (r : Reader) : Request → Nat
  | .readForm => Form.demand r.lines [] r.pending
  | _ => 1

def after (r : Reader) : List Request → Reader
  | [] => r
  | q :: qs => (r.ask q).2.after qs

def answers (r : Reader) : List Request → List Answer
  | [] => []
  | q :: qs => (r.ask q).1 :: (r.ask q).2.answers qs

def consumed (r : Reader) : List Request → List Token
  | [] => []
  | q :: qs => r.takes q ++ (r.ask q).2.consumed qs

/-! ## One request -/

variable {r : Reader} {t : Token} {ts : List Token}

/-- At the end of the text every request is answered alike. -/
theorem ask_nil (hp : r.pending = []) (q : Request) :
    r.ask q = (q.ending (r.fault?.map (·.error r.lines)), r.ended) := by
  rw [eq_of_pending_nil hp]
  obtain ⟨lines, -, -, fault?⟩ := r
  cases q <;> cases fault? <;> rfl

theorem lookahead_ask (h : r.lookahead.length ≤ 1) (q : Request) :
    (r.ask q).2.lookahead.length ≤ 1 := by
  cases hp : r.pending with
  | nil => simp [ask_nil hp, ended]
  | cons t ts =>
    cases q with
    | peek => simp [ask, peek_cons h hp]
    | advance => simp [ask, advance_cons h hp]
    | readForm =>
      rw [ask, readForm_eq]
      generalize Form.readOne r.lines [] r.pending = result
      obtain ⟨outcome, us⟩ := result
      cases outcome <;> simp [ofOutcome]

theorem takes_nil (hp : r.pending = []) (q : Request) : r.takes q = [] := by
  cases q with
  | peek => rfl
  | advance =>
    rw [eq_of_pending_nil hp]
    obtain ⟨lines, -, -, fault?⟩ := r
    cases fault? <;> rfl
  | readForm => rw [takes, pull_nil hp]

/-- A request takes tokens from the front of those that are pending. -/
theorem takes_append (h : r.lookahead.length ≤ 1) (q : Request) :
    r.takes q ++ (r.ask q).2.pending = r.pending := by
  cases hp : r.pending with
  | nil => rw [ask_nil hp, takes_nil hp]; rfl
  | cons t ts =>
    cases q with
    | peek => rw [ask, peek_cons h hp]; rfl
    | advance => rw [takes, ask, advance_cons h hp]; rfl
    | readForm =>
      rw [takes, ask, readForm_eq_pull h, ← hp]
      exact pull_append h []

theorem lines_ask (h : r.lookahead.length ≤ 1) (q : Request) : (r.ask q).2.lines = r.lines := by
  cases hp : r.pending with
  | nil => rw [ask_nil hp]; rfl
  | cons t ts =>
    cases q with
    | peek => rw [ask, peek_cons h hp]
    | advance => rw [ask, advance_cons h hp]
    | readForm =>
      rw [ask, readForm_eq]
      generalize Form.readOne r.lines [] r.pending = result
      obtain ⟨outcome, us⟩ := result
      cases outcome <;> rfl

/-! ## Requests that come to the end -/

theorem error?_ending (q : Request) (e? : Option ReadError) : (q.ending e?).error? = e? := by
  cases q <;> cases e? <;> rfl

/-- A request that asks for no more tokens than there are does not come to the fault. -/
theorem ask_within (h : r.lookahead.length ≤ 1) {q : Request}
    (hd : r.demand q ≤ r.pending.length) :
    (r.ask q).2.fault? = r.fault? ∧ ∀ e ∈ (r.ask q).1.error?, e.isLexical = false := by
  have hnone : ∀ e ∈ (none : Option ReadError), e.isLexical = false :=
    fun e he => absurd he (Option.not_mem_none e)
  cases hp : r.pending with
  | nil =>
    rw [hp] at hd
    cases q <;> simp [demand, hp, Form.demand] at hd
  | cons t ts =>
    cases q with
    | peek => rw [ask, peek_cons h hp]; exact ⟨rfl, hnone⟩
    | advance => rw [ask, advance_cons h hp]; exact ⟨rfl, hnone⟩
    | readForm =>
      rw [ask, readForm_eq]
      cases Form.reading r.lines [] r.pending with
      | read form rest hone _ => rw [hone]; exact ⟨rfl, hnone⟩
      | failed e rest hone he _ =>
        rw [hone]
        refine ⟨rfl, ?_⟩
        rintro _ ⟨⟩
        exact he
      | exhausted stack hone hdemand =>
        rw [demand, hdemand] at hd
        exact absurd hd (Nat.not_succ_le_self _)

/-- A request that asks for more tokens than there are is the last that gives anything: it comes
to the fault if there is one. -/
theorem ask_beyond {q : Request} (hd : r.pending.length < r.demand q) :
    (r.ask q).2 = r.ended ∧
      (∀ fault ∈ r.fault?, (r.ask q).1 = q.ending (some (fault.error r.lines))) ∧
      (r.fault? = none → ∀ e ∈ (r.ask q).1.error?, e.isLexical = false) := by
  cases q with
  | readForm =>
    rw [ask, readForm_eq]
    cases Form.reading r.lines [] r.pending with
    | read form rest _ hdemand =>
      rw [demand] at hd
      omega
    | failed e rest _ _ hdemand =>
      rw [demand] at hd
      omega
    | exhausted stack hone _ =>
      rw [hone]
      refine ⟨rfl, ?_, ?_⟩
      · intro fault hfault
        simp only [ofOutcome, Option.mem_def.1 hfault, Form.atEnd]
        rfl
      · intro hnone e he
        simp only [ofOutcome, hnone] at he
        split at he
        next e' hend =>
          obtain rfl : e' = e := Option.some.inj he
          exact Form.isLexical_of_atEnd hend
        next => cases he
  | _ =>
    have hp : r.pending = [] := List.eq_nil_of_length_eq_zero (Nat.lt_one_iff.1 hd)
    rw [ask_nil hp]
    refine ⟨rfl, ?_, ?_⟩
    · intro fault hfault
      rw [Option.mem_def.1 hfault]
      rfl
    · intro hnone e he
      rw [error?_ending, hnone] at he
      cases he

/-! ## Many requests -/

theorem after_append (r : Reader) (qs qs' : List Request) :
    r.after (qs ++ qs') = (r.after qs).after qs' := by
  induction qs generalizing r with
  | nil => rfl
  | cons q qs ih => exact ih _

theorem lookahead_after (h : r.lookahead.length ≤ 1) (qs : List Request) :
    (r.after qs).lookahead.length ≤ 1 := by
  induction qs generalizing r with
  | nil => exact h
  | cons q qs ih => exact ih (lookahead_ask h q)

theorem lines_after (h : r.lookahead.length ≤ 1) (qs : List Request) :
    (r.after qs).lines = r.lines := by
  induction qs generalizing r with
  | nil => rfl
  | cons q qs ih => exact (ih (lookahead_ask h q)).trans (lines_ask h q)

theorem consumed_append (h : r.lookahead.length ≤ 1) (qs : List Request) :
    r.consumed qs ++ (r.after qs).pending = r.pending := by
  induction qs generalizing r with
  | nil => rfl
  | cons q qs ih => rw [consumed, after, List.append_assoc, ih (lookahead_ask h q), takes_append h]

theorem after_ended (r : Reader) (qs : List Request) : r.ended.after qs = r.ended := by
  induction qs with
  | nil => rfl
  | cons q qs ih => rw [after, ask_nil rfl]; exact ih

theorem answers_ended (r : Reader) (qs : List Request) :
    r.ended.answers qs = qs.map (·.ending none) := by
  induction qs with
  | nil => rfl
  | cons q qs ih => rw [answers, ask_nil rfl]; exact congrArg _ ih

/-- The request `q`, which comes behind the requests `qs`, asks for the token with the number
`k`, counted from zero. -/
def AsksFor (r : Reader) (k : Nat) (qs : List Request) (q : Request) : Prop :=
  k < (r.consumed qs).length + (r.after qs).demand q

/-- One of the requests asks for the token with the number `k`. -/
def HasAskedFor (r : Reader) (k : Nat) (qs : List Request) : Prop :=
  ∃ before q later, qs = before ++ q :: later ∧ r.AsksFor k before q

theorem asksFor_iff (h : r.lookahead.length ≤ 1) {qs : List Request} {q : Request} :
    r.AsksFor r.pending.length qs q ↔ (r.after qs).pending.length < (r.after qs).demand q := by
  have hlen := congrArg List.length (consumed_append h qs)
  rw [List.length_append] at hlen
  rw [AsksFor]
  omega

theorem after_of_hasAskedFor (h : r.lookahead.length ≤ 1) {qs : List Request}
    (hasked : r.HasAskedFor r.pending.length qs) : r.after qs = r.ended := by
  obtain ⟨before, q, later, rfl, hq⟩ := hasked
  have hended : (r.after before).ended = r.ended := by rw [ended, ended, lines_after h]
  rw [after_append, after, (ask_beyond ((asksFor_iff h).1 hq)).1, after_ended, hended]

/-- The fault stays until the token behind the last one is asked for. -/
theorem fault?_after (h : r.lookahead.length ≤ 1) {qs : List Request}
    (hasked : ¬ r.HasAskedFor r.pending.length qs) : (r.after qs).fault? = r.fault? := by
  induction qs using List.reverseRecOn with
  | nil => rfl
  | append_singleton qs q ih =>
    have hbefore : ¬ r.HasAskedFor r.pending.length qs := by
      rintro ⟨before, u, later, rfl, hu⟩
      exact hasked ⟨before, u, later ++ [q], by simp, hu⟩
    have hlast : ¬ r.AsksFor r.pending.length qs q := fun hq => hasked ⟨qs, q, [], rfl, hq⟩
    rw [asksFor_iff h, Nat.not_lt] at hlast
    rw [after_append, after, after, (ask_within (lookahead_after h qs) hlast).1, ih hbefore]

/-- Nothing is given once the token behind the last one has been asked for. -/
theorem ask_of_hasAskedFor (h : r.lookahead.length ≤ 1) {done : List Request}
    (hasked : r.HasAskedFor r.pending.length done) (q : Request) :
    ((r.after done).ask q).1 = q.ending none := by
  rw [after_of_hasAskedFor h hasked, ask_nil rfl]
  rfl

/-- Without a fault nothing is given either when all tokens are consumed. -/
theorem ask_of_consumed (h : r.lookahead.length ≤ 1) (hnone : r.fault? = none)
    {done : List Request} (hp : (r.after done).pending = []) (q : Request) :
    ((r.after done).ask q).1 = q.ending none := by
  by_cases hasked : r.HasAskedFor r.pending.length done
  · exact ask_of_hasAskedFor h hasked q
  · rw [ask_nil hp, fault?_after h hasked, hnone]
    rfl

/-- The fault is reported by the first request that asks for the token behind the last one, and by
no other. -/
theorem error?_eq_fault_iff (h : r.lookahead.length ≤ 1) {fault : LexFault}
    (hfault : r.fault? = some fault) (done : List Request) (q : Request) :
    ((r.after done).ask q).1.error? = some (fault.error r.lines) ↔
      r.AsksFor r.pending.length done q ∧ ¬ r.HasAskedFor r.pending.length done := by
  by_cases hasked : r.HasAskedFor r.pending.length done
  · rw [ask_of_hasAskedFor h hasked, error?_ending]
    simp [hasked]
  · have hleft : (r.after done).fault? = some fault := (fault?_after h hasked).trans hfault
    by_cases hq : r.AsksFor r.pending.length done q
    · rw [(ask_beyond ((asksFor_iff h).1 hq)).2.1 fault hleft, error?_ending, lines_after h]
      simp [hq, hasked]
    · have hwithin := Nat.not_lt.1 (mt (asksFor_iff h).2 hq)
      refine ⟨fun herror => ?_, fun hboth => absurd hboth.1 hq⟩
      -- every other error comes from the tokens, and none of these is one of the lexer
      have hlexical := (ask_within (lookahead_after h done) hwithin).2 _ herror
      rw [LexFault.isLexical_error] at hlexical
      cases hlexical

/-! ## Peeking -/

/-- What was looked at makes no difference to the next request. -/
theorem ask_rewind (h : r.lookahead.length ≤ 1) (q : Request) :
    (r.rewind.ask q).1 = (r.ask q).1 ∧ (r.rewind.ask q).2.rewind = (r.ask q).2.rewind ∧
      r.rewind.takes q = r.takes q := by
  cases hp : r.pending with
  | nil =>
    have hr : r.rewind = r := by rw [rewind, hp]; exact (eq_of_pending_nil hp).symm
    rw [hr]
    exact ⟨rfl, rfl, rfl⟩
  | cons t ts =>
    have h' : r.rewind.lookahead.length ≤ 1 := by simp [rewind]
    have hp' : r.rewind.pending = t :: ts := hp
    cases q with
    | peek =>
      rw [ask, ask, peek_cons h hp, peek_cons h' hp']
      exact ⟨rfl, rfl, rfl⟩
    | advance =>
      rw [ask, ask, takes, takes, advance_cons h hp, advance_cons h' hp']
      exact ⟨rfl, rfl, rfl⟩
    | readForm =>
      rw [ask, ask, takes, takes, readForm_eq, readForm_eq, pull_cons h hp, pull_cons h' hp', hp, hp']
      exact ⟨rfl, rfl, rfl⟩

/-- Nor does it make a difference to any later request. -/
theorem answers_congr {r' : Reader} (h : r.lookahead.length ≤ 1) (h' : r'.lookahead.length ≤ 1)
    (heq : r.rewind = r'.rewind) (qs : List Request) :
    r.answers qs = r'.answers qs ∧ r.consumed qs = r'.consumed qs := by
  induction qs generalizing r r' with
  | nil => exact ⟨rfl, rfl⟩
  | cons q qs ih =>
    obtain ⟨hanswer, hnext, htakes⟩ := ask_rewind h q
    obtain ⟨hanswer', hnext', htakes'⟩ := ask_rewind h' q
    rw [heq] at hanswer hnext htakes
    obtain ⟨hanswers, hconsumed⟩ := ih (lookahead_ask h q) (lookahead_ask h' q)
      (hnext.symm.trans hnext')
    simp only [answers, consumed]
    rw [← hanswer, ← htakes, hanswer', htakes', hanswers, hconsumed]
    exact ⟨rfl, rfl⟩

/-- A peek is not seen by later requests, unless it is the one that comes to the fault; without it
the next request would be that one. -/
def PeekUnseen (r : Reader) (next : List Request) : Prop :=
  match r.peek.1 with
  | .ok _ => r.peek.2.answers next = r.answers next ∧ r.peek.2.consumed next = r.consumed next
  | .error e => r.peek.2.answers next = next.map (·.ending none) ∧
      r.answers next = (next.take 1).map (·.ending (some e)) ++ (next.drop 1).map (·.ending none)

theorem peekUnseen (h : r.lookahead.length ≤ 1) (next : List Request) : r.PeekUnseen next := by
  cases hp : r.pending with
  | nil =>
    cases hfault : r.fault? with
    | none =>
      have hr : r = r.ended := by rw [ended, ← hfault]; exact eq_of_pending_nil hp
      rw [hr]
      exact ⟨rfl, rfl⟩
    | some fault =>
      -- the peek takes the fault away, which the first of the next requests would have come to
      have hr := eq_of_pending_nil hp
      rw [hfault] at hr
      rw [hr]
      refine ⟨answers_ended r next, ?_⟩
      cases next with
      | nil => rfl
      | cons q qs =>
        rw [answers, ask_nil rfl]
        exact congrArg _ (answers_ended r qs)
  | cons t ts =>
    rw [PeekUnseen, peek_cons h hp]
    refine answers_congr (by simp) h ?_ next
    rw [rewind, rewind, hp]
    rfl

/-- Whatever is asked of a reader, it gives the tokens of its text in order. -/
theorem tokens_in_order (file : String) (source : List Char) (done : List Request) :
    let start := ofSource file source
    let r := start.after done
    let count := (lex source).tokens.length
    start.consumed done ++ r.pending = (lex source).tokens ∧
      r.lookahead.length ≤ 1 ∧
      r.readForm = (r.pull []).2 ∧
      (∀ t ∈ r.pending.head?, r.peek.1 = .ok (some t)) ∧
      (∀ next, r.PeekUnseen next) ∧
      ((lex source).fault? = none → r.pending = [] → ∀ q, (r.ask q).1 = q.ending none) ∧
      ∀ fault ∈ (lex source).fault?, ∀ q,
        ((r.ask q).1.error? = some (fault.error (.ofSource file source)) ↔
          start.AsksFor count done q ∧ ¬ start.HasAskedFor count done) ∧
        (start.HasAskedFor count done → (r.ask q).1 = q.ending none) := by
  intro start r count
  have hstart : start.lookahead.length ≤ 1 := Nat.zero_le 1
  have hr : r.lookahead.length ≤ 1 := lookahead_after hstart done
  have hshown : ∀ t ∈ r.pending.head?, r.peek.1 = .ok (some t) := by
    intro t ht
    obtain ⟨ts, hp⟩ := List.head?_eq_some_iff.1 ht
    rw [peek_cons hr hp]
  refine ⟨consumed_append hstart done, hr, readForm_eq_pull hr, hshown, peekUnseen hr, ?_, ?_⟩
  · exact fun hnone hp q => ask_of_consumed hstart hnone hp q
  · intro fault hfault q
    exact ⟨error?_eq_fault_iff hstart hfault done q, fun hasked =>
      ask_of_hasAskedFor hstart hasked q⟩

theorem tokens_in_order_fault :
    let source := "(a \"".toList
    let start := ofSource "in.formula" source
    let fault : LexFault := ⟨.unterminatedString, 3⟩
    lex source = ⟨[⟨.opening, ['('], 0⟩, ⟨.word, ['a'], 1⟩], some fault⟩ ∧
      (start.ask .readForm).1.error? = some (fault.error (.ofSource "in.formula" source)) ∧
      ∀ q, ((start.after [.peek, .readForm]).ask q).1 = q.ending none := by
  intro source start fault
  have hlex : lex source = ⟨[⟨.opening, ['('], 0⟩, ⟨.word, ['a'], 1⟩], some fault⟩ := by
    decide +kernel
  have hfault : fault ∈ (lex source).fault? := by rw [hlex]; rfl
  have hcount : (lex source).tokens.length = 2 := by rw [hlex]; rfl
  have hask : start.AsksFor (lex source).tokens.length [] .readForm := by
    rw [AsksFor, hcount]
    decide +kernel
  have hpeeked : start.HasAskedFor (lex source).tokens.length [.peek, .readForm] := by
    refine ⟨[.peek], .readForm, [], rfl, ?_⟩
    rw [AsksFor, hcount]
    decide +kernel
  have hnone : ¬ start.HasAskedFor (lex source).tokens.length [] := by
    rintro ⟨_ | _, q, later, heq, -⟩ <;> cases heq
  obtain ⟨-, -, -, -, -, -, hraised⟩ := tokens_in_order "in.formula" source []
  obtain ⟨-, -, -, -, -, -, hsilent⟩ := tokens_in_order "in.formula" source [.peek, .readForm]
  exact ⟨hlex, (hraised fault hfault .readForm).1.2 ⟨hask, hnone⟩,
    fun q => (hsilent fault hfault q).2 hpeeked⟩

end Formulary.Reader
