import Formulary.Environment

/-!
# Arithmetic

Numbers of every width count as integers or doubles. A sum of integers is exact. Once a double
takes part the result is a double: the sum of the integers, made a double, plus the sum of the
doubles from left to right.
-/
namespace Formulary.Arithmetic

/-- Makes integers of every width plain integers and floating-point numbers of every width
doubles; other values stay what they are. -/
def normalize : Native → Native
  | .sizedInt _ n => .int n
  | .half x => .double (x.convert .double)
  | .single x => .double (x.convert .double)
  | .sizedDouble x => .double x
  | v => v

/-- The sum of the integers so far, and of the doubles if there was one. -/
structure Total where
  integers : Int := 0
  doubles : Double := .zero .double false
  hasDouble : Bool := false

/-- Adds the arguments to a total; the first that is no number is a fault. -/
def total (operator : String) (t : Total) : List Native → Except EvalFault Total
  | [] => .ok t
  | v :: vs =>
    match normalize v with
    | .double x => total operator { t with doubles := t.doubles.add x, hasDouble := true } vs
    | .int n => total operator { t with integers := t.integers + n } vs
    | _ => .error (.argumentType operator v)

def toDouble (n : Int) : Except EvalFault Double :=
  (Binary.ofInt? .double n).elim (.error .overflow) .ok

def sum (operator : String) (args : List Native) : Except EvalFault Native := do
  let t ← total operator {} args
  if t.hasDouble then
    let x ← toDouble t.integers
    return .double (x.add t.doubles)
  else return .int t.integers

def plainDouble : Native → Except EvalFault Double
  | .int n => toDouble n
  | .double x => .ok x
  | _ => .error .overflow

def difference (a b : Native) : Except EvalFault Native :=
  match a, b with
  | .int m, .int n => .ok (.int (m - n))
  | a, b => do
    let x ← plainDouble a
    let y ← plainDouble b
    return .double (x.sub y)

def add (args : List Native) : Except EvalFault Native := sum "+" args

/-- Nothing minus nothing is zero, one argument is negated, and from the first of several the sum
of the others is taken. -/
def sub : List Native → Except EvalFault Native
  | [] => .ok (.int 0)
  | v :: vs =>
    match normalize v, vs with
    | .int n, [] => .ok (.int (-n))
    | .double x, [] => .ok (.double x.neg)
    | .int n, vs => do difference (.int n) (← sum "-" vs)
    | .double x, vs => do difference (.double x) (← sum "-" vs)
    | _, _ => .error (.argumentType "-" v)

/-- Reports the faults of a function at the location of the call. -/
def located (f : List Native → Except EvalFault Native) (l : Location) (args : List Native) :
    Except EvalError Native :=
  (f args).mapError (⟨l, ·⟩)

def functions : List FunctionDef :=
  [⟨⟨"+", Symbol.formulaSpace⟩, "add", located add⟩,
    ⟨⟨"-", Symbol.formulaSpace⟩, "sub", located sub⟩]

end Formulary.Arithmetic
