import Formulary.Form.Basic
import Formulary.Form.Escape
import Formulary.Text.Quoted
import Formulary.Token

/-!
# Reading forms

The reader consumes tokens one by one and keeps a stack of the lists that are still open. A form
is complete when it is not inside an open list. A reader can be asked for the next token, for the
next token without consuming it, and for the next form; after a fault of the lexer it is at the
end of its text.
-/
namespace Formulary

inductive ReadError where
  | unterminatedString (pos : Position)
  | unterminatedComment (pos : Position)
  | unexpectedCharacter (pos : Position) (c : Char)
  | unmatchedOpening (pos : Position)
  | unexpectedClosing (pos : Position)
  | badEscape (pos : Position) (literal : List Char) (cause : EscapeError)
deriving DecidableEq, Repr

namespace ReadError

def kind : ReadError → FailureKind
  | .badEscape _ _ cause => cause.kind
  | _ => .reading

def message : ReadError → String
  | .unterminatedString pos => s!"{pos.text}: unterminated string literal"
  | .unterminatedComment pos => s!"{pos.text}: unterminated block comment"
  | .unexpectedCharacter pos c =>
    s!"{pos.text}: unexpected character {String.ofList (Text.quoted [c])}"
  | .unmatchedOpening pos => s!"{pos.text}: unmatched '('"
  | .unexpectedClosing pos => s!"{pos.text}: unexpected ')'"
  | .badEscape pos literal cause => s!"{pos.text}: {cause.message literal}"

def failure (e : ReadError) : Failure :=
  ⟨e.kind, if e.kind.isOwn then some e.message else none⟩

end ReadError

def LexFault.error (lines : LineIndex) (fault : LexFault) : ReadError :=
  match fault.kind with
  | .unterminatedString => .unterminatedString (lines.position fault.offset)
  | .unterminatedComment => .unterminatedComment (lines.position fault.offset)
  | .unexpectedCharacter c => .unexpectedCharacter (lines.position fault.offset) c

namespace Form

/-- A list that is still open: where it starts, and its items so far, the last one first. -/
structure Frame where
  pos : Position
  items : List Form

/-- After a token the reader has a complete form, or lists that are still open. -/
inductive Step where
  | done (form : Form)
  | more (stack : List Frame)

def place (form : Form) : List Frame → Step
  | [] => .done form
  | frame :: stack => .more ({ frame with items := form :: frame.items } :: stack)

def step (lines : LineIndex) (stack : List Frame) (t : Token) : Except ReadError Step :=
  let pos := lines.position t.offset
  match t.kind, stack with
  | .opening, stack => .ok (.more (⟨pos, []⟩ :: stack))
  | .closing, [] => .error (.unexpectedClosing pos)
  | .closing, frame :: stack => .ok (place (.list frame.pos frame.items.reverse) stack)
  | .string, stack =>
    match unescape t.text with
    | .ok value => .ok (place (.string pos value) stack)
    | .error cause => .error (.badEscape pos t.text cause)
  | .word, stack => .ok (place (ofWord pos t.text) stack)

/-- How the reading of one form ends: with the form, with an error, or with no token left. -/
inductive Outcome where
  | read (form : Form)
  | failed (e : ReadError)
  | exhausted (stack : List Frame)

/-- Reads one form; the tokens that are left come second. -/
def readOne (lines : LineIndex) (stack : List Frame) : List Token → Outcome × List Token
  | [] => (.exhausted stack, [])
  | t :: ts =>
    match step lines stack t with
    | .error e => (.failed e, ts)
    | .ok (.done form) => (.read form, ts)
    | .ok (.more stack) => readOne lines stack ts

/-- What the end of the text means when the given lists are open. -/
def atEnd (lines : LineIndex) (fault? : Option LexFault) : List Frame → Option ReadError
  | stack => match fault?, stack with
    | some fault, _ => some (fault.error lines)
    | none, [] => none
    | none, frame :: _ => some (.unmatchedOpening frame.pos)

/-- Reads every form, up to the error that ends them if there is one. -/
def readMany (lines : LineIndex) (fault? : Option LexFault) (stack : List Frame) :
    List Token → List Form × Option ReadError
  | [] => ([], atEnd lines fault? stack)
  | t :: ts =>
    match step lines stack t with
    | .error e => ([], some e)
    | .ok (.done form) =>
      let (forms, e?) := readMany lines fault? [] ts
      (form :: forms, e?)
    | .ok (.more stack) => readMany lines fault? stack ts

/-- The forms of a source text, up to the error that ends them if there is one. -/
def readAll (file : String) (source : List Char) : List Form × Option ReadError :=
  let lexed := lex source
  readMany (.ofSource file source) lexed.fault? [] lexed.tokens

end Form

structure Reader where
  lines : LineIndex
  /-- Tokens that were looked at and not yet consumed. -/
  lookahead : List Token
  tokens : List Token
  /-- The fault that follows the tokens, until it has been reported. -/
  fault? : Option LexFault

namespace Reader

def ofSource (file : String) (source : List Char) : Reader :=
  let lexed := lex source
  ⟨.ofSource file source, [], lexed.tokens, lexed.fault?⟩

/-- Takes a token from the text, not looking at the lookahead. -/
def next (r : Reader) : Except ReadError (Option Token) × Reader :=
  match r.tokens, r.fault? with
  | t :: ts, _ => (.ok (some t), { r with tokens := ts })
  | [], some fault => (.error (fault.error r.lines), { r with fault? := none })
  | [], none => (.ok none, r)

/-- The next token, which stays to be consumed. -/
def peek (r : Reader) : Except ReadError (Option Token) × Reader :=
  match r.lookahead with
  | t :: _ => (.ok (some t), r)
  | [] =>
    match r.next with
    | (.ok (some t), r) => (.ok (some t), { r with lookahead := [t] })
    | result => result

def advance (r : Reader) : Except ReadError (Option Token) × Reader :=
  match r.lookahead with
  | t :: ts => (.ok (some t), { r with lookahead := ts })
  | [] => r.next

def readForm (r : Reader) : Except ReadError (Option Form) × Reader :=
  match Form.readOne r.lines [] (r.lookahead ++ r.tokens) with
  | (.read form, ts) => (.ok (some form), { r with lookahead := [], tokens := ts })
  | (.failed e, ts) => (.error e, { r with lookahead := [], tokens := ts })
  | (.exhausted stack, ts) =>
    let r' := { r with lookahead := [], tokens := ts, fault? := none }
    match Form.atEnd r.lines r.fault? stack with
    | some e => (.error e, r')
    | none => (.ok none, r')

end Reader

end Formulary
