import GridRover.Expression.Postfix
import GridRover.Grid
import GridRover.Script.Statement

/-!
# Journal events

What the parts of the program report while they work. An event has a level, the part
it comes from and a message.
-/
namespace GridRover.Journal

open Expression Script

inductive Level
  | trace
  | debug
  | info
  | warn
  deriving DecidableEq, Repr

namespace Level

def name : Level → String
  | .trace => "TRACE"
  | .debug => "DEBUG"
  | .info => "INFO"
  | .warn => "WARN"

def rank : Level → Nat
  | .trace => 0
  | .debug => 1
  | .info => 2
  | .warn => 3

end Level

inductive Event
  /-- A text was split into tokens. -/
  | scanned (text : String) (tokens : List Token)
  /-- A text was brought into postfix order. -/
  | ordered (text : String) (order : Postfix)
  | emitted (command : Command) (subscribers : Nat)
  /-- A completed program was asked to go on. -/
  | idle
  | endReached (line : Nat)
  | executing (line : Nat) (statement : Statement)
  | declared (type : VariableType) (name : String) (value : Float)
  | updated (name : String) (assignment : Assignment) (value result : Float)
  | arrived (position : Position)
  | moved (direction : Direction) (position : Position)
  | blocked (direction : Direction) (position : Position)
  | loading (path : String)
  | installed (threshold : Level)
  | finished (steps : Nat)
  deriving DecidableEq

namespace Event

def level : Event → Level
  | .scanned .. | .ordered .. => .trace
  | .idle => .warn
  | .arrived _ | .finished _ => .info
  | _ => .debug

/-- The part of the program that an event is filed under. -/
def origin : Event → String
  | .scanned .. => "roverscript/src/lexer/lexer.rs"
  | .ordered .. => "roverscript/src/expression/mod.rs"
  | .emitted .. => "roverscript/src/command.rs"
  | .idle | .endReached _ | .executing .. | .declared .. | .updated .. =>
    "roverscript/src/interpreter.rs"
  | .arrived _ | .moved .. | .blocked .. => "interpreter/src/grid.rs"
  | .loading _ => "interpreter/src/config.rs"
  | .installed _ => "interpreter/src/logger.rs"
  | .finished _ => "interpreter/src/main.rs"

def place (p : Position) : String := "(" ++ toString p.x ++ ", " ++ toString p.y ++ ")"

def message : Event → String
  | .scanned text tokens =>
    "Tokens of `" ++ text ++ "`: [" ++ String.intercalate ", " (tokens.map Token.written) ++ "]"
  | .ordered text order => "Postfix of `" ++ text ++ "`: " ++ order.text
  | .emitted command subscribers =>
    "Emitting " ++ command.text ++ " to " ++ toString subscribers ++ " subscriber(s)"
  | .idle => "advance() called on a completed program"
  | .endReached line => "Reached the end of the program after line " ++ toString line
  | .executing line statement => "Line " ++ toString line ++ ": " ++ statement.written
  | .declared type name value =>
    "Declared " ++ type.name ++ " " ++ name ++ " = " ++ Number.text value
  | .updated name assignment value result =>
    "Updated " ++ name ++ " " ++ assignment.text ++ " " ++ Number.text value ++ ", now " ++
      Number.text result
  | .arrived p => "Program finished with the rover at " ++ place p
  | .moved direction p => "Rover moved " ++ direction.name ++ " to " ++ place p
  | .blocked direction p =>
    "Rover stays at " ++ place p ++ ", cannot move " ++ direction.name ++ " off the grid"
  | .loading path => "Loading configuration from " ++ path
  | .installed threshold => "Logger installed at level " ++ threshold.name
  | .finished steps => "Program completed after " ++ toString steps ++ " step(s)"

/-- The event with its level in front. -/
def line (e : Event) : String := e.level.name ++ " " ++ e.message

/-- The event as the program prints it. -/
def printed (e : Event) : String := "[" ++ e.level.name ++ "] " ++ e.origin ++ ": " ++ e.message

/-- Events below the threshold are not shown. -/
def isShown (threshold : Level) (e : Event) : Bool := threshold.rank ≤ e.level.rank

end Event

end GridRover.Journal
