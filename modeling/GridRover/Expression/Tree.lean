import GridRover.Expression.Postfix

/-!
# Expression trees and the infix grammar

A tree has a value of its own and a post-order traversal. The grammar relates token
kinds to the tree they spell: sums of products of factors, chains associating to the
left, and parentheses that leave no trace in the tree.
-/
namespace GridRover.Expression

inductive Tree
  | number (value : Float)
  | variable (name : String)
  | node (op : Operator) (left right : Tree)
  deriving DecidableEq

namespace Tree

/-- Left subtree, right subtree, operator. -/
def postorder : Tree → Postfix
  | .number value => [.number value]
  | .variable name => [.variable name]
  | .node op left right => left.postorder ++ right.postorder ++ [.operator op]

/-- The recursive value, where all its variables are present. -/
def value? (store : Store) : Tree → Option Float
  | .number value => some value
  | .variable name => store.get? name
  | .node op left right =>
    match left.value? store, right.value? store with
    | some x, some y =>
      match op with
      | .add => some (x + y)
      | .subtract => some (x - y)
      | .multiply => some (x * y)
      | .divide => some (x / y)
    | _, _ => none

end Tree

/-- The three kinds of phrases of the infix grammar. -/
inductive Phrase
  | sum
  | product
  | factor
  deriving DecidableEq

/-- `Derives phrase kinds tree`: the kinds are such a phrase and spell the tree. -/
inductive Derives : Phrase → List Token.Kind → Tree → Prop
  | number (value : Float) : Derives .factor [.number value] (.number value)
  | variable (name : String) : Derives .factor [.name name] (.variable name)
  | group {kinds : List Token.Kind} {tree : Tree} :
      Derives .sum kinds tree → Derives .factor (.opening :: kinds ++ [.closing]) tree
  | factor {kinds : List Token.Kind} {tree : Tree} :
      Derives .factor kinds tree → Derives .product kinds tree
  | times {op : Operator} {front back : List Token.Kind} {left right : Tree} :
      op = .multiply ∨ op = .divide → Derives .product front left → Derives .factor back right →
      Derives .product (front ++ .operator op :: back) (.node op left right)
  | product {kinds : List Token.Kind} {tree : Tree} :
      Derives .product kinds tree → Derives .sum kinds tree
  | plus {op : Operator} {front back : List Token.Kind} {left right : Tree} :
      op = .add ∨ op = .subtract → Derives .sum front left → Derives .product back right →
      Derives .sum (front ++ .operator op :: back) (.node op left right)

end GridRover.Expression
