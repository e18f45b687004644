import GridRover.Expression.Token
import GridRover.Script.Command
import GridRover.Store
import GridRover.Text.Quoted

/-!
# Reserved words and statements
-/
namespace GridRover.Script

/-! ## Reserved words

The seven words of the language: the directions, the jump and the variable types. No
variable has one of them as its name. -/

inductive Keyword
  | direction (direction : Direction)
  | goto
  | type (type : VariableType)
  deriving DecidableEq, Repr

namespace Keyword

def text : Keyword → String
  | .direction d => d.name
  | .goto => "goto"
  | .type t => t.name

/-- All keywords, by their text. -/
def all : List Keyword :=
  [.direction .backward, .type .float, .direction .forward, .goto, .type .int,
    .direction .left, .direction .right]

def ofText? (text : String) : Option Keyword := all.find? (·.text == text)

def direction? : Keyword → Option Direction
  | .direction d => some d
  | _ => none

def type? : Keyword → Option VariableType
  | .type t => some t
  | _ => none

@[simp] theorem ofText?_text (k : Keyword) : ofText? k.text = some k := by
  cases k with
  | direction d => cases d <;> rfl
  | goto => rfl
  | type t => cases t <;> rfl

end Keyword

/-- The word cannot name a variable. -/
def isReserved (text : String) : Bool := (Keyword.ofText? text).isSome

/-! ## Statements

One line of a script is one statement. Expressions inside a statement stay texts
until the statement runs. -/

/-- How an update changes a variable: by a plain value, or by an operator on the value it has. -/
inductive Assignment
  | plain
  | compound (op : Expression.Operator)
  deriving DecidableEq, Repr

namespace Assignment

def text : Assignment → String
  | .plain => "="
  | .compound op => op.text ++ "="

def apply : Assignment → Float → Float → Float
  | .plain, _, value => value
  | .compound .add, current, value => current + value
  | .compound .subtract, current, value => current - value
  | .compound .multiply, current, value => current * value
  | .compound .divide, current, value => current / value

/-- The name of an assignment inside the written form of a structure. -/
def label : Assignment → String
  | .plain => "Assign"
  | .compound op => op.label ++ "Assign"

/-- All assignments, the compound ones first. -/
def all : List Assignment :=
  [.compound .add, .compound .subtract, .compound .multiply, .compound .divide, .plain]

end Assignment

inductive Statement
  | move (direction : Direction)
  | goto (target : Int)
  | declaration (type : VariableType) (name : String) (initializer : Option String)
  | update (name : String) (assignment : Assignment) (expression : String)
  | blank
  deriving DecidableEq

/-- The written form of a statement in the journal. -/
def Statement.written : Statement → String
  | .move direction => "Move(" ++ direction.label ++ ")"
  | .goto target => "Goto \x7b target: " ++ toString target ++ " \x7d"
  | .declaration type name initializer =>
    let value := match initializer with
      | some expression => "Some(" ++ Text.quoted expression ++ ")"
      | none => "None"
    "Declaration \x7b ty: " ++ type.label ++ ", name: " ++ Text.quoted name ++
      ", initializer: " ++ value ++ " \x7d"
  | .update name assignment expression =>
    "Update \x7b name: " ++ Text.quoted name ++ ", operator: " ++ assignment.label ++
      ", expression: " ++ Text.quoted expression ++ " \x7d"
  | .blank => "Blank"

end GridRover.Script
