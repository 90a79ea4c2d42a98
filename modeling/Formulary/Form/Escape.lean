import Formulary.Failure
import Formulary.Text.Digit

/-!
# Escapes in string literals

A backslash stands before one of seven characters that name a character each, or before `x`, `u`
or `U` with two, four or eight hexadecimal digits that give a code point.
-/
namespace Formulary

inductive EscapeError where
  /-- `x`, `u` or `U` without its digits. -/
  | badDigits (letter : Char)
  | unknown (c : Char)
  /-- The digits give a number that is no code point of a character. -/
  | noCharacter (code : Nat)
  /-- The text ends in a backslash. -/
  | truncated
deriving DecidableEq, Repr

namespace EscapeError

def kind : EscapeError → FailureKind
  | .badDigits _ => .reading
  | .unknown _ => .reading
  | .noCharacter code => if code < 0x80000000 then .value else .overflow
  | .truncated => .index

def message (literal : List Char) : EscapeError → String
  | .badDigits letter => s!"invalid \\{letter} escape in string {String.ofList literal}"
  | .unknown c => s!"unknown escape sequence \\{c} in string {String.ofList literal}"
  | .noCharacter code => s!"no character has the code {code}"
  | .truncated => "escape without a character"

end EscapeError

namespace Escape

def simple? : Char → Option Char
  | 'n' => some '\n'
  | 't' => some '\t'
  | 'r' => some '\r'
  | '\\' => some '\\'
  | '\x22' => some '\x22'
  | '\x27' => some '\x27'
  | '0' => some '\x00'
  | _ => none

/-- How many digits follow the letter of an escape by number. -/
def width? : Char → Option Nat
  | 'x' => some 2
  | 'u' => some 4
  | 'U' => some 8
  | _ => none

/-- The character of a code. Texts are made of characters here, so the code of a surrogate is
refused like one beyond the last character. -/
def charOfCode (code : Nat) : Except EscapeError Char :=
  if h : code.isValidChar then .ok (Char.ofNatAux code h) else .error (.noCharacter code)

def charOfDigits (letter : Char) (width : Nat) (cs : List Char) : Except EscapeError Char :=
  if width ≤ cs.length then
    match Text.ofHex? (cs.take width) with
    | some code => charOfCode code
    | none => .error (.badDigits letter)
  else .error (.badDigits letter)

def resolve : List Char → Except EscapeError (List Char)
  | [] => .ok []
  | c :: cs =>
    if c = '\\' then
      match cs with
      | [] => .error .truncated
      | e :: rest =>
        match simple? e, width? e with
        | some ch, _ => (resolve rest).map (ch :: ·)
        | none, some width => do
          let ch ← charOfDigits e width rest
          let text ← resolve (rest.drop width)
          return ch :: text
        | none, none => .error (.unknown e)
    else (resolve cs).map (c :: ·)
termination_by cs => cs.length
decreasing_by all_goals simp only [List.length_cons, List.length_drop]; omega

end Escape

/-- The text that a string literal denotes, its quotes being the first and the last character. -/
def unescape (literal : List Char) : Except EscapeError (List Char) :=
  Escape.resolve (literal.drop 1).dropLast

end Formulary
