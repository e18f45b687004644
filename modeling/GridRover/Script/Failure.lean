import GridRover.Expression.Postfix
import GridRover.Text.Basic

/-!
# Why a line fails

A failure carries the line it happened on, counted from one, and the text of that line.
-/
namespace GridRover.Script

inductive Cause
  | expression (error : Expression.Error)
  | duplicate (name : String)
  | undeclared (name : String)
  | jump (target : Int) (length : Nat)
  | unrecognised
  deriving DecidableEq

def Cause.message : Cause → String
  | .expression error => error.message
  | .duplicate name => "Variable `" ++ name ++ "` is already declared"
  | .undeclared name => "Variable `" ++ name ++ "` is not declared"
  | .jump target length =>
    "Jump target " ++ toString target ++ " lies outside of the program, which has " ++
      toString length ++ " line(s)"
  | .unrecognised => "Line is not a statement"

/-- Advice that goes with a cause. -/
def Cause.hint? : Cause → Option String
  | .expression _ => none
  | .duplicate name => some ("use `" ++ name ++ " = ...;` to change its value")
  | .undeclared name => some ("declare it first, e.g. `float " ++ name ++ ";`")
  | .jump _ length => some ("lines are numbered 1 to " ++ toString length)
  | .unrecognised =>
    some "expected a movement, `goto`, declaration or assignment ending in `;`"

structure Failure where
  line : Nat
  text : String
  cause : Cause
  deriving DecidableEq

def Failure.message (f : Failure) : String :=
  f.cause.message ++ " on line " ++ toString f.line ++ ": `" ++ Text.trimmed f.text ++ "`"

end GridRover.Script
