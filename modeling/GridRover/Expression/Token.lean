import GridRover.Number.Layout
import GridRover.Text.Quoted

/-!
# Operators and tokens
-/
namespace GridRover.Expression

/-! ## Binary operators -/

inductive Operator
  | add
  | subtract
  | multiply
  | divide
  deriving DecidableEq, Repr

namespace Operator

def symbol : Operator → Char
  | .add => '+'
  | .subtract => '-'
  | .multiply => '*'
  | .divide => '/'

def ofSymbol? : Char → Option Operator
  | '+' => some .add
  | '-' => some .subtract
  | '*' => some .multiply
  | '/' => some .divide
  | _ => none

@[simp] theorem ofSymbol?_symbol (op : Operator) : ofSymbol? op.symbol = some op := by
  cases op <;> rfl

def text (op : Operator) : String := op.symbol.toString

/-- Binding strength: products bind tighter than sums. -/
def precedence : Operator → Nat
  | .add | .subtract => 2
  | .multiply | .divide => 3

def apply : Operator → Float → Float → Float
  | .add, x, y => x + y
  | .subtract, x, y => x - y
  | .multiply, x, y => x * y
  | .divide, x, y => x / y

/-- The name of an operator inside the written form of a structure. -/
def label : Operator → String
  | .add => "Add"
  | .subtract => "Subtract"
  | .multiply => "Multiply"
  | .divide => "Divide"

end Operator

/-! ## Tokens of an expression

A token knows what it means and which bytes of the text it covers. -/

inductive Token.Kind
  | number (value : Float)
  | name (text : String)
  | operator (op : Operator)
  | opening
  | closing
  deriving DecidableEq

/-- A lexical unit covering the bytes from `start` up to but not including `stop`. -/
structure Token where
  kind : Token.Kind
  start : Nat
  stop : Nat
  deriving DecidableEq

namespace Token

def Kind.text : Kind → String
  | .number value => Number.text value
  | .name text => text
  | .operator op => op.text
  | .opening => "("
  | .closing => ")"

/-- The written form of a kind in the journal. -/
def Kind.written : Kind → String
  | .number value => "Number(" ++ Number.markedText value ++ ")"
  | .name text => "Identifier(" ++ Text.quoted text ++ ")"
  | .operator op => "Operator(" ++ op.label ++ ")"
  | .opening => "LeftParenthesis"
  | .closing => "RightParenthesis"

def text (t : Token) : String := t.kind.text

/-- The written form of a token in the journal. -/
def written (t : Token) : String :=
  "Token \x7b kind: " ++ t.kind.written ++ ", begin: " ++ toString t.start ++
    ", end: " ++ toString t.stop ++ " \x7d"

end Token

/-- The texts of the tokens, nothing between them. -/
def joinedText (tokens : List Token) : String := String.join (tokens.map Token.text)

/-- Opening minus closing parentheses. -/
def depth (tokens : List Token) : Int :=
  (tokens.countP (·.kind = .opening) : Int) - tokens.countP (·.kind = .closing)

end GridRover.Expression
