import GridRover.Journal.Event
import GridRover.Script.Machine

/-!
# What each part reports

The account of a step is a function of the state before it, apart from what the step
does.
-/
namespace GridRover

open Journal

/-- The account of evaluating a text: how far it gets. -/
def Expression.account (store : Store) (text : String) : List Event :=
  match Expression.tokenize text with
  | .error _ => []
  | .ok tokens =>
    .scanned text tokens ::
      match Expression.Postfix.ofKinds store (tokens.map Expression.Token.kind) with
      | .error _ => []
      | .ok order => [.ordered text order]

/-- The account of delivering a command. -/
def Script.Channel.account (c : Script.Channel) (command : Script.Command) : List Event :=
  [.emitted command c.subscribers.length]

namespace Script.Machine

/-- The account of running a statement. -/
def statementAccount (m : Machine) : Statement → List Event
  | .move direction => m.channel.account (.move direction)
  | .goto _ | .blank => []
  | .declaration type name initializer =>
    if m.store.contains name then []
    else
      (match initializer with
        | some expression => Expression.account m.store expression
        | none => []) ++
      match m.initialValue type initializer with
      | .ok x => [.declared type name x]
      | .error _ => []
  | .update name assignment expression =>
    match m.store.get? name with
    | none => []
    | some current =>
      Expression.account m.store expression ++
        match m.evaluate expression with
        | .ok x => [.updated name assignment x (assignment.apply current x)]
        | .error _ => []

/-- The account of the next step. -/
def account (m : Machine) : List Event :=
  match m.status with
  | .completed => [.idle]
  | .running =>
    match m.program[m.counter]? with
    | none => .endReached m.counter :: m.channel.account .endOfProgram
    | some text =>
      match Statement.ofLine? text with
      | none => []
      | some statement => .executing (m.counter + 1) statement :: m.statementAccount statement

end Script.Machine

/-- The account of handling a command on a grid. -/
def Grid.account (g : Grid) : Script.Command → List Event
  | .endOfProgram => [.arrived g.rover]
  | .move direction =>
    match g.neighbour? direction with
    | some position => [.moved direction position]
    | none => [.blocked direction g.rover]

end GridRover
