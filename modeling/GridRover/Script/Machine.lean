import GridRover.Expression.Postfix
import GridRover.Script.Command
import GridRover.Script.Failure
import GridRover.Script.Recognition
import GridRover.Text.Basic

/-!
# The machine that runs a script

A machine runs the line under its counter. A line works on the machine directly, and
work that fails leaves behind what it has changed so far. Past the last line the machine
announces the end and is completed for good.

Whether a line can run again and where the counter goes next do not depend on values,
so a machine that is still running after twice as many steps as it has lines runs
forever; `run` looks no further.
-/
namespace GridRover.Script

inductive Status
  | running
  | completed
  deriving DecidableEq, Repr

structure Machine where
  program : List String
  /-- Index of the line that runs next. -/
  counter : Nat
  store : Store
  channel : Channel
  status : Status
  deriving DecidableEq

/-- Work on a machine that may fail. What it changed before the failure stays changed. -/
abbrev Work := EStateM Cause Machine

namespace Machine

def ofLines (program : List String) : Machine := ⟨program, 0, .empty, .empty, .running⟩

def ofSource (source : String) : Machine := ofLines (Text.lines source)

def subscribe (m : Machine) (name : String) : Machine :=
  { m with channel := m.channel.subscribe name }

def isCompleted (m : Machine) : Bool := m.status = .completed

/-- The index of the line with the given number. Lines are numbered from one. -/
def lineIndex (m : Machine) (target : Int) : Except Cause Nat :=
  match ((Number.previousWord? target).bind Int.toNat?).filter (· < m.program.length) with
  | some index => .ok index
  | none => .error (.jump target m.program.length)

/-- The value of an expression in the store of the machine. -/
def evaluate (m : Machine) (expression : String) : Except Cause Float :=
  match Expression.value m.store expression with
  | .ok x => .ok x
  | .error e => .error (.expression e)

/-- The first value of a declared variable; zero where none is given. -/
def initialValue (m : Machine) (type : VariableType) : Option String → Except Cause Float
  | none => .ok 0
  | some expression =>
    match m.evaluate expression with
    | .ok x => .ok (type.coerce x)
    | .error e => .error e

/-- Announces the end of the program. -/
def finish (m : Machine) : Machine :=
  { m with channel := m.channel.emit .endOfProgram, status := .completed }

/-- The failure of the line with the given index. -/
def failureAt (m : Machine) (index : Nat) (cause : Cause) : Failure :=
  ⟨index + 1, m.program[index]?.getD "", cause⟩

end Machine

namespace Work

/-- Asks the machine something that leaves it as it is. -/
def consult (question : Machine → Except Cause α) : Work α := fun m =>
  match question m with
  | .ok answer => .ok answer m
  | .error cause => .error cause m

def emit (command : Command) : Work Unit :=
  modify fun m => { m with channel := m.channel.emit command }

def jumpTo (index : Nat) : Work Unit := modify fun m => { m with counter := index }

def moveOn : Work Unit := modify fun m => { m with counter := m.counter + 1 }

/-- Declares a variable; a name that the store refuses changes nothing. -/
def declare (name : String) (type : VariableType) (value : Float) : Work Unit :=
  modify fun m => { m with store := (m.store.declare? name type value).getD m.store }

/-- Changes the value of a variable; a name that the store does not have changes nothing. -/
def assign (name : String) (value : Float) : Work Unit :=
  modify fun m => { m with store := (m.store.set? name value).getD m.store }

/-- Runs a statement. A name is looked at before the expression. -/
def execute : Statement → Work Unit
  | .move direction => do
    emit (.move direction)
    moveOn
  | .goto target => do
    let index ← consult (·.lineIndex target)
    jumpTo index
  | .declaration type name initializer => do
    if (← get).store.contains name then throw (.duplicate name)
    else
      let x ← consult (·.initialValue type initializer)
      declare name type x
      moveOn
  | .update name assignment expression => do
    match (← get).store.get? name with
    | none => throw (.undeclared name)
    | some current =>
      let x ← consult (·.evaluate expression)
      assign name (assignment.apply current x)
      moveOn
  | .blank => moveOn

end Work

namespace Machine

/-- Runs the line under the counter. -/
def advance (m : Machine) : Machine × Except Failure Status :=
  match m.status with
  | .completed => (m, .ok .completed)
  | .running =>
    match m.program[m.counter]? with
    | none => (m.finish, .ok .completed)
    | some text =>
      match Statement.ofLine? text with
      | none => (m, .error (m.failureAt m.counter .unrecognised))
      | some statement =>
        match (Work.execute statement).run m with
        | .ok _ after => (after, .ok after.status)
        | .error cause after => (after, .error (after.failureAt m.counter cause))

/-- Advances up to `n` times, stopping after a step that does not leave the machine running.
The steps made, the machine after them and the result of the last one. -/
def proceed : Nat → Machine → Nat × Machine × Except Failure Status
  | 0, m => (0, m, .ok .running)
  | n + 1, m =>
    match m.advance with
    | (next, .ok .running) =>
      let (steps, last) := proceed n next
      (steps + 1, last)
    | (next, result) => (1, next, result)

/-- The machines on which `proceed n` makes its steps. -/
def visited : Nat → Machine → List Machine
  | 0, _ => []
  | n + 1, m =>
    match m.advance with
    | (next, .ok .running) => m :: visited n next
    | _ => [m]

/-- As many steps as it takes to see whether a machine ever stops. -/
def horizon (m : Machine) : Nat := 2 * m.program.length + 1

/-- Advances until the program is completed or fails; `none` if it never does. -/
def run (m : Machine) : Option (Machine × Except Failure Unit) :=
  match proceed m.horizon m with
  | (_, last, .ok .completed) => some (last, .ok ())
  | (_, last, .error failure) => some (last, .error failure)
  | (_, _, .ok .running) => none

end Machine

end GridRover.Script
