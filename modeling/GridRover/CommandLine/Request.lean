import GridRover.Number.Literal
import GridRover.Script.Statement
import GridRover.Text.Basic

/-!
# Requests

What a command line asks for, with the variables that it gives.
-/
namespace GridRover.CommandLine

/-! ## Variables given on the command line -/

/-- Why an argument gives no variable. -/
inductive BindingError
  | noEquals (argument : String)
  | invalidName (name : String)
  | invalidValue (name : String) (cause : Number.LiteralError)
  deriving DecidableEq

def BindingError.message : BindingError → String
  | .noEquals argument => "expected `name=value`, got `" ++ argument ++ "`"
  | .invalidName name => "`" ++ name ++ "` is not a valid variable name"
  | .invalidValue name cause => "invalid value for `" ++ name ++ "`: " ++ cause.message

/-- A name and its value. -/
abbrev Binding := String × Float

/-- Reads `name=value`, with blanks around either. -/
def Binding.ofText (argument : String) : Except BindingError Binding :=
  let cs := argument.toList
  match cs.dropWhile (· != '=') with
  | [] => .error (.noEquals argument)
  | _ :: rest =>
    let chars := Text.trim (cs.takeWhile (· != '='))
    let name := String.ofList chars
    if Text.isName chars && !Script.isReserved name then
      match Number.ofText (String.ofList (Text.trim rest)) with
      | .ok x => .ok (name, x)
      | .error cause => .error (.invalidValue name cause)
    else .error (.invalidName name)

/-! ## What the command line asks for -/

inductive Task
  | run (file : String) (showGrid : Bool) (maxSteps : Option Nat)
  | check (file : String)
  | eval (expression : String) (bindings : List Binding)
  deriving DecidableEq

structure Request where
  verbose : Bool
  config : Option String
  task : Task
  deriving DecidableEq

/-- The script that a task reads. -/
def Task.script? : Task → Option String
  | .run file .. => some file
  | .check file => some file
  | .eval .. => none

/-- The part of the command line that is being read: the front, or what belongs to a task. -/
inductive Scope
  | front
  | run
  | check
  | eval
  deriving DecidableEq, Repr

inductive Flag
  | verbose
  | config
  | showGrid
  | maxSteps
  | variable
  | help
  | version
  deriving DecidableEq, Repr

namespace Flag

def takesValue : Flag → Bool
  | .config | .maxSteps | .variable => true
  | _ => false

/-- The flag as messages show it. -/
def shown : Flag → String
  | .verbose => "--verbose"
  | .config => "--config <CONFIG>"
  | .showGrid => "--show-grid"
  | .maxSteps => "--max-steps <MAX_STEPS>"
  | .variable => "--var <VARIABLES>"
  | .help => "--help"
  | .version => "--version"

/-- Flags that a scope knows by a word. -/
def ofWord? (scope : Scope) (word : String) : Option Flag :=
  match word, scope with
  | "verbose", _ => some .verbose
  | "config", _ => some .config
  | "help", _ => some .help
  | "version", .front => some .version
  | "show-grid", .run => some .showGrid
  | "max-steps", .run => some .maxSteps
  | "var", .eval => some .variable
  | _, _ => none

/-- Flags that a scope knows by a letter. -/
def ofLetter? (scope : Scope) (letter : Char) : Option Flag :=
  match letter, scope with
  | 'v', _ => some .verbose
  | 'c', _ => some .config
  | 'h', _ => some .help
  | 'V', .front => some .version
  | _, _ => none

end Flag

/-- Why the command line asks for nothing that can be done. Help and version are asked for
and end the reading just the same. -/
inductive Refusal
  | help (scope : Scope)
  | version
  | unexpected (argument : String)
  | unknownTask (argument : String)
  | missingTask
  | missingArgument (scope : Scope)
  | missingValue (shown : String)
  | needlessValue (flag : Flag) (value : String)
  | repeated (flag : Flag)
  | invalidNumber (argument : String)
  | invalidVariable (argument : String) (cause : BindingError)
  deriving DecidableEq

end GridRover.CommandLine
