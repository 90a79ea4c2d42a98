import Formulary.Expr.Printer
import Formulary.Form.Reader

/-!
# Parsing expressions

A form becomes an expression: strings stay strings, whole numbers become 64-bit integers, other
numbers doubles, symbol literals symbols, and lists convert item by item. The position of each
form becomes the source context of its expression. An error inside a list is reported with the
position and the index of the item at each level.
-/
namespace Formulary

inductive ParseError where
  | badSymbol (literal : List Char)
  | tooLarge (literal : List Char)
  | unknownNumber (literal : List Char)
  | unknownForm (pos : Position)
  | inForm (pos : Position) (index : Nat) (cause : ParseError)
  | notNumber
  | reading (cause : ReadError)
  | noForm
  | extraForm (pos : Position)
deriving DecidableEq, Repr

namespace ParseError

def kind : ParseError → FailureKind
  | .notNumber => .value
  | .inForm _ _ cause => cause.kind
  | .reading cause => if cause.kind.isOwn then .parsing else cause.kind
  | _ => .parsing

def message : ParseError → String
  | .badSymbol literal =>
    s!"invalid symbol begins with two colons: {String.ofList (Text.quoted literal)}"
  | .tooLarge literal => s!"integer constant {String.ofList literal} overflows int64"
  | .unknownNumber literal => s!"unsupported number value: {String.ofList literal}"
  | .unknownForm pos =>
    let file := String.ofList (Text.quoted pos.file.toList)
    s!"unsupported form Form(position=SourcePosition(filename={file}, line={pos.line}, column={pos.column}))"
  | .inForm pos index cause => s!"{pos.text}: error parsing form[{index}]: {cause.message}"
  | .notNumber => "not a number"
  | .reading cause => s!"error reading S-expression: {cause.message}"
  | .noForm => "error reading S-expression: no form found"
  | .extraForm pos =>
    s!"error reading S-expression: unexpected content after first form at {pos.text}"

def failure (e : ParseError) : Failure :=
  ⟨e.kind, if e.kind.isOwn then some e.message else none⟩

/-- Places an error at an item of a list; only the library's own errors are placed. -/
def atForm (pos : Position) (index : Nat) (e : ParseError) : ParseError :=
  if e.kind.isOwn then .inForm pos index e else e

end ParseError

namespace Form

/-- The atom that a form other than a list denotes. -/
def toAtom : Form → Except ParseError Atom
  | .string _ value => .ok (.string (String.ofList value))
  | .number _ literal .whole =>
    match Numeral.intLiteral? literal with
    | none => .error .notNumber
    | some n => if IntKind.int64.contains n then .ok (.int .int64 n) else .error (.tooLarge literal)
  | .number _ literal .real =>
    match Numeral.floatLiteral? literal with
    | none => .error .notNumber
    | some x => .ok (.double x)
  | .number _ literal .other => .error (.unknownNumber literal)
  | .symbol _ literal =>
    match Symbol.parse? literal with
    | none => .error (.badSymbol literal)
    | some s => .ok (.symbol s)
  | .list pos _ => .error (.unknownForm pos)
  | .bare pos => .error (.unknownForm pos)

def source (form : Form) : Source := some (.str form.pos.text)

mutual

def toExpr : Form → Except ParseError Expr
  | .list pos items => (toExprs 0 items).map (.list (some (.str pos.text)))
  | form => form.toAtom.map (.atom form.source)

def toExprs (index : Nat) : List Form → Except ParseError (List Expr)
  | [] => .ok []
  | form :: forms =>
    match toExpr form with
    | .error e => .error (e.atForm form.pos index)
    | .ok e => (toExprs (index + 1) forms).map (e :: ·)

end

end Form

namespace Expr

/-- The expression that a text holds; the text must hold exactly one form. -/
def parse (file : String) (source : List Char) : Except ParseError Expr :=
  match (Reader.ofSource file source).readForm with
  | (.error e, _) => .error (.reading e)
  | (.ok none, _) => .error .noForm
  | (.ok (some form), reader) =>
    match reader.peek.1 with
    | .error e => .error (.reading e)
    | .ok (some t) => .error (.extraForm (reader.lines.position t.offset))
    | .ok none => form.toExpr

/-- The expressions of the forms, up to the first that has none; then `after?` stops them. -/
def parseForms (after? : Option ReadError) : List Form → List Expr × Option Failure
  | [] => ([], after?.map (·.failure))
  | form :: forms =>
    match form.toExpr with
    | .error e => ([], some e.failure)
    | .ok e =>
      let (es, failure?) := parseForms after? forms
      (e :: es, failure?)

/-- The expressions of all the forms of a text, up to the failure that ends them. -/
def parseAll (file : String) (source : List Char) : List Expr × Option Failure :=
  let (forms, after?) := Form.readAll file source
  parseForms after? forms

/-- Parses a literal that is known to be right; a text that is not is a fault of the caller. -/
def parseLiteral (source : List Char) : Except Failure Expr :=
  match parse "" source with
  | .ok e => .ok e
  | .error e => .error <|
    if e.kind.isOwn then
      ⟨.value, some s!"must_parse({String.ofList (Text.quoted source)}): {e.message}"⟩
    else e.failure

end Expr

end Formulary
