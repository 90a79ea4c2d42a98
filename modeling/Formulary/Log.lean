import Formulary.Destination.Shape
import Formulary.Settings

/-!
# The debug log

The library reports three kinds of events. They are logged at the lowest named level, and only by
a logger that is set to this level or below it; a logger without a level logs nothing.
-/
namespace Formulary

inductive LogEvent where
  | compiledShape (shape : Shape)
  | expandingForm (symbol : Symbol)
  | createdEnvironment (size : Nat)

namespace LogEvent

def reporter : LogEvent → String
  | .compiledShape _ => "exprlang.binding.binder"
  | .expandingForm _ => "exprlang.formula.compiler"
  | .createdEnvironment _ => "exprlang.formula.environment"

def message : LogEvent → String
  | .compiledShape shape => "compiled " ++ shape.display
  | .expandingForm symbol => "compiling special form " ++ symbol.text
  | .createdEnvironment size => s!"created lexical environment with {size} bindings"

def line (e : LogEvent) : String := "DEBUG " ++ e.reporter ++ ": " ++ e.message

end LogEvent

structure Logger where
  level : Int

namespace Logger

def name : String := "exprlang"

/-- A logger with the given level, or else the one that the setting names. -/
def configure (level? : Option Int) (setting? : Option String) : Logger :=
  ⟨level?.getD (Settings.level setting? Settings.defaultLevel)⟩

def isEnabled (l : Logger) : Bool := l.level != 0 && decide (l.level ≤ 10)

def lines (l : Logger) (events : List LogEvent) : List String :=
  if l.isEnabled then events.map (·.line) else []

end Logger

end Formulary
