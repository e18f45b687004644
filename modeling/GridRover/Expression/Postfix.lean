import GridRover.Expression.Scanner
import GridRover.Store

/-!
# Postfix expressions

An expression is brought into postfix order and then runs on a stack of values.
-/
namespace GridRover.Expression

/-! ## Why an expression has no value -/

/-- `unknown` names a variable that is missing when the expression is put in order,
`undefined` one that is missing when it is evaluated. -/
inductive Error
  | scan (cause : TokenError)
  | parentheses
  | unknown (name : String)
  | undefined (name : String)
  | imbalance (depth : Nat)
  deriving DecidableEq

def Error.message : Error → String
  | .scan cause => "Syntax error: " ++ cause.message
  | .parentheses => "Parentheses do not match"
  | .unknown name => "Unknown variable `" ++ name ++ "`"
  | .undefined name => "Variable `" ++ name ++ "` is not defined"
  | .imbalance depth => "Malformed expression, " ++ toString depth ++ " value(s) left on the stack"

/-! ## Postfix order

Operands keep their order and each operator moves behind its operands. Operators and
open parentheses wait on a stack: an operator lets go those of at least its own
precedence above the last open parenthesis, which makes chains of equal precedence
associate to the left, and a closing parenthesis lets go all of them. -/

inductive Term
  | number (value : Float)
  | variable (name : String)
  | operator (op : Operator)
  deriving DecidableEq

def Term.text : Term → String
  | .number value => Number.text value
  | .variable name => name
  | .operator op => op.text

/-- An expression in postfix order, parentheses resolved away. -/
abbrev Postfix := List Term

/-- What waits for its place in the postfix order. -/
inductive Pending
  | opening
  | operator (op : Operator)
  deriving DecidableEq

namespace Pending

/-- Binding strength. An open parenthesis ranks below every operator. -/
def precedence : Pending → Int
  | .opening => -1
  | .operator op => op.precedence

/-- What comes out when an entry is let go; a parenthesis leaves no trace. -/
def term? : Pending → Option Term
  | .opening => none
  | .operator op => some (.operator op)

end Pending

namespace Postfix

/-- The terms with a space between them. -/
def text (p : Postfix) : String := String.intercalate " " (p.map Term.text)

/-- Lets go what is on top and binds at least as tightly as `op`. -/
def release (op : Operator) : List Pending → Postfix × List Pending
  | [] => ([], [])
  | top :: stack =>
    if top.precedence < op.precedence then ([], top :: stack)
    else
      let (out, rest) := release op stack
      (top.term?.toList ++ out, rest)

/-- Lets go the operators above the last open parenthesis, and the parenthesis with them. -/
def close : List Pending → Option (Postfix × List Pending)
  | [] => none
  | .opening :: stack => some ([], stack)
  | .operator op :: stack =>
    match close stack with
    | some (out, rest) => some (.operator op :: out, rest)
    | none => none

/-- Lets go everything at the end of the tokens; an open parenthesis is left over. -/
def drain : List Pending → Option Postfix
  | [] => some []
  | .opening :: _ => none
  | .operator op :: stack =>
    match drain stack with
    | some out => some (.operator op :: out)
    | none => none

/-- The terms that one token lets out, and the stack after it. -/
def step (store : Store) (stack : List Pending) :
    Token.Kind → Except Error (Postfix × List Pending)
  | .number value => .ok ([.number value], stack)
  | .name name =>
    if store.contains name then .ok ([.variable name], stack) else .error (.unknown name)
  | .opening => .ok ([], .opening :: stack)
  | .closing =>
    match close stack with
    | some (out, rest) => .ok (out, rest)
    | none => .error .parentheses
  | .operator op =>
    let (out, rest) := release op stack
    .ok (out, .operator op :: rest)

/-- The terms that tokens let out one after the other, and the stack after them. -/
def steps (store : Store) (stack : List Pending) :
    List Token.Kind → Except Error (Postfix × List Pending)
  | [] => .ok ([], stack)
  | kind :: kinds =>
    match step store stack kind with
    | .error e => .error e
    | .ok (out, rest) =>
      match steps store rest kinds with
      | .error e => .error e
      | .ok (terms, last) => .ok (out ++ terms, last)

/-- Brings tokens into postfix order. Names must be declared in the store. -/
def ofKinds (store : Store) (kinds : List Token.Kind) : Except Error Postfix :=
  match steps store [] kinds with
  | .error e => .error e
  | .ok (terms, stack) =>
    match drain stack with
    | some out => .ok (terms ++ out)
    | none => .error .parentheses

end Postfix

/-! ## The value of an expression

A postfix expression runs on a stack of values; an operator takes its right operand
from the top. A text goes through tokens and postfix order first. -/

namespace Postfix

/-- The stack after one term. -/
def push (store : Store) : Term → List Float → Except Error (List Float)
  | .number value, stack => .ok (value :: stack)
  | .variable name, stack =>
    match store.get? name with
    | some value => .ok (value :: stack)
    | none => .error (.undefined name)
  | .operator op, right :: left :: stack => .ok (op.apply left right :: stack)
  | .operator _, stack => .error (.imbalance stack.length)

/-- The stack after all terms. -/
def run (store : Store) : Postfix → List Float → Except Error (List Float)
  | [], stack => .ok stack
  | term :: terms, stack =>
    match push store term stack with
    | .error e => .error e
    | .ok rest => run store terms rest

/-- The single value that a postfix expression leaves. -/
def value (store : Store) (p : Postfix) : Except Error Float :=
  match run store p [] with
  | .error e => .error e
  | .ok [x] => .ok x
  | .ok stack => .error (.imbalance stack.length)

end Postfix

/-- The postfix order of a text. -/
def postfixOf (store : Store) (text : String) : Except Error Postfix :=
  match tokenize text with
  | .error e => .error (.scan e)
  | .ok tokens => Postfix.ofKinds store (tokens.map Token.kind)

/-- The value of a text. -/
def value (store : Store) (text : String) : Except Error Float :=
  match postfixOf store text with
  | .error e => .error e
  | .ok p => p.value store

end GridRover.Expression
