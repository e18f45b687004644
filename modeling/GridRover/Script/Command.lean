/-!
# Directions and commands
-/
namespace GridRover.Script

/-! ## Directions of the rover -/

inductive Direction
  | right
  | forward
  | left
  | backward
  deriving DecidableEq, Repr

namespace Direction

def name : Direction → String
  | .right => "right"
  | .forward => "forward"
  | .left => "left"
  | .backward => "backward"

/-- The number that stands for a direction in a command. -/
def code : Direction → Nat
  | .right => 0
  | .forward => 1
  | .left => 2
  | .backward => 3

/-- The name of a direction inside the written form of a structure. -/
def label : Direction → String
  | .right => "Right"
  | .forward => "Forward"
  | .left => "Left"
  | .backward => "Backward"

end Direction

/-! ## Commands and the channel they travel on

A channel keeps its subscribers in the order of registration. A command goes to each
of them once, the earliest first. -/

inductive Command
  | move (direction : Direction)
  | endOfProgram
  deriving DecidableEq, Repr

namespace Command

def direction? : Command → Option Direction
  | .move direction => some direction
  | .endOfProgram => none

def text : Command → String
  | .move direction => "move " ++ direction.name ++ " (" ++ toString direction.code ++ ")"
  | .endOfProgram => "end of program"

end Command

/-- Subscribers by name, and what has been delivered to them, the latest delivery first. -/
structure Channel where
  subscribers : List String
  delivered : List (String × Command)
  deriving DecidableEq

namespace Channel

def empty : Channel := ⟨[], []⟩

def subscribe (c : Channel) (name : String) : Channel :=
  { c with subscribers := c.subscribers ++ [name] }

def emit (c : Channel) (command : Command) : Channel :=
  { c with delivered := (c.subscribers.map (·, command)).reverse ++ c.delivered }

/-- The deliveries that a channel has beyond an earlier state of it, in order. -/
def since (c earlier : Channel) : List (String × Command) :=
  (c.delivered.take (c.delivered.length - earlier.delivered.length)).reverse

/-- The written form of a channel in listings. -/
def written (c : Channel) : String :=
  "CommandEmitter \x7b subscribers: " ++ toString c.subscribers.length ++ " \x7d"

end Channel

end GridRover.Script
