import Formulary.Message.Error

/-!
# Symbols

A symbol has a name and a namespace, which may be empty. Its text is `name`, `namespace:name`, or
`:name` in the namespace of keywords; one or two colons may divide the two parts.
-/
namespace Formulary

structure Symbol where
  name : String
  space : String := ""
deriving DecidableEq, Repr, Inhabited

namespace Symbol

def keywordSpace : String := "keyword"

def keyword (name : String) : Symbol := ⟨name, keywordSpace⟩

/-- The namespace of operators that are written without one. -/
def formulaSpace : String := "formula"

/-- Puts a symbol without namespace into the namespace of formulas. -/
def normalize (s : Symbol) : Symbol :=
  if s.space = "" then { s with space := formulaSpace } else s

def chars (s : Symbol) : List Char :=
  if s.space = "" then s.name.toList
  else (if s.space = keywordSpace then [] else s.space.toList) ++ ':' :: s.name.toList

def text (s : Symbol) : String := String.ofList s.chars

/-- The symbol that a literal denotes. The first colon divides it, a second one right after that
is skipped, and only a literal that begins with two colons denotes none. -/
def parse? (literal : List Char) : Option Symbol :=
  let space := String.ofList (literal.takeWhile (· != ':'))
  match literal.dropWhile (· != ':') with
  | ':' :: ':' :: name => if space = "" then none else some ⟨String.ofList name, space⟩
  | ':' :: name => some ⟨String.ofList name, if space = "" then keywordSpace else space⟩
  | _ => some ⟨space, ""⟩

def display (s : Symbol) : String :=
  let name := (Message.str s.name).display
  if s.space = "" then s!"Symbol({name})" else s!"Symbol({name}, {(Message.str s.space).display})"

def toMessage (s : Symbol) : Message :=
  .object (("name", .str s.name) :: if s.space = "" then [] else [("namespace", .str s.space)])

/-- A symbol message may lack name and namespace, which are then empty. -/
def ofMessage : Message → Except MessageError Symbol
  | .object fields =>
    match (fields.lookup "name").getD (.str ""), (fields.lookup "namespace").getD (.str "") with
    | .str name, .str space => .ok ⟨name, space⟩
    | _, _ => .error (.symbolPartNotText (.object fields))
  | m => .error (.symbolNotObject m)

end Symbol

end Formulary
