import GridRover.Journal.Account

/-!
# A script that drives a rover

An expedition is a machine together with a grid, which handles the commands that the channel
delivers to it. It goes on until the program is completed, fails or has made as many steps as
it may. Nothing is printed here; what a step reports is its account.
-/
namespace GridRover

open Script Journal

/-- The command that the next step of a machine sends. -/
def Script.Machine.command? (m : Machine) : Option Command :=
  match m.status with
  | .completed => none
  | .running =>
    match m.program[m.counter]? with
    | none => some .endOfProgram
    | some text =>
      match Statement.ofLine? text with
      | some (.move direction) => some (.move direction)
      | _ => none

/-- What the next step of a machine delivers, in order. -/
def Script.Machine.deliveries (m : Machine) : List (String × Command) :=
  match m.command? with
  | some command => m.channel.subscribers.map (·, command)
  | none => []

namespace Grid

/-- The name that the grid goes by on a channel. -/
def listener : String := "grid"

/-- The grid after deliveries, of which it handles its own. -/
def receive (g : Grid) : List (String × Command) → Grid
  | [] => g
  | (name, command) :: rest => (if name = listener then g.handle command else g).receive rest

/-- The account of receiving deliveries. -/
def reception (g : Grid) : List (String × Command) → List Event
  | [] => []
  | (name, command) :: rest =>
    if name = listener then g.account command ++ (g.handle command).reception rest
    else g.reception rest

end Grid

structure Expedition where
  machine : Machine
  grid : Grid
  deriving DecidableEq

inductive Ending
  | completed
  | failed (failure : Failure)
  | outOfSteps (limit : Nat)
  deriving DecidableEq

/-- What is said of a program that has used up its steps. -/
def limitMessage (limit : Nat) : String :=
  "Program did not finish within " ++ toString limit ++ " steps"

/-- Where an expedition ends up and after how many steps; without an ending it never ends. -/
structure Journey where
  last : Expedition
  steps : Nat
  ending : Option Ending
  deriving DecidableEq

namespace Expedition

/-- The grid is the only subscriber. -/
def ofProgram (program : List String) (grid : Grid) : Expedition :=
  ⟨(Machine.ofLines program).subscribe Grid.listener, grid⟩

def advance (e : Expedition) : Expedition × Except Failure Status :=
  let (machine, result) := e.machine.advance
  (⟨machine, e.grid.receive e.machine.deliveries⟩, result)

/-- The account of the next step. -/
def account (e : Expedition) : List Event :=
  e.machine.account ++ e.grid.reception e.machine.deliveries

/-- The limit, once so many steps are made that it is reached. -/
def reached? (limit : Option Nat) (steps : Nat) : Option Nat :=
  match limit with
  | some m => if m ≤ steps then some m else none
  | none => none

/-- Goes on for at most `n` steps, `steps` having been made. A step that leaves the machine
running is counted first, and then the count is held against the limit. -/
def goOn (limit : Option Nat) : Nat → Nat → Expedition → Journey
  | 0, steps, e => ⟨e, steps, none⟩
  | n + 1, steps, e =>
    match e.advance with
    | (next, .ok .running) =>
      match reached? limit (steps + 1) with
      | some m => ⟨next, steps + 1, some (.outOfSteps m)⟩
      | none => goOn limit n (steps + 1) next
    | (next, .ok .completed) => ⟨next, steps, some .completed⟩
    | (next, .error failure) => ⟨next, steps, some (.failed failure)⟩

/-- How many steps are looked at: more than a limit leaves, and without one as many as it
takes to see whether the machine ever stops. -/
def span (limit : Option Nat) (e : Expedition) : Nat :=
  match limit with
  | some m => m + 1
  | none => e.machine.horizon

/-- The whole journey under a limit on the steps. -/
def travel (limit : Option Nat) (e : Expedition) : Journey := goOn limit (e.span limit) 0 e

/-- Collects what `note` says of each step, given the expedition before it and, where it is
still running, the one after it; the latest notes come first. -/
def notes (note : Expedition → Option Expedition → List α) (limit : Option Nat) :
    Nat → Nat → List α → Expedition → List α
  | 0, _, taken, _ => taken
  | n + 1, steps, taken, e =>
    match e.advance with
    | (next, .ok .running) =>
      match reached? limit (steps + 1) with
      | some _ => (note e (some next)).reverse ++ taken
      | none => notes note limit n (steps + 1) ((note e (some next)).reverse ++ taken) next
    | _ => (note e none).reverse ++ taken

/-- What `note` says of the steps of the whole journey, in order. -/
def chronicle (note : Expedition → Option Expedition → List α) (limit : Option Nat)
    (e : Expedition) : List α :=
  (notes note limit (e.span limit) 0 [] e).reverse

end Expedition

end GridRover
