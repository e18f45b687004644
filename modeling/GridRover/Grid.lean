import GridRover.Script.Command

/-!
# The grid

A rover stands on a cell of a rectangle. A move that would leave the rectangle leaves
the rover where it is. Sizes and places are words of 64 bits.
-/
namespace GridRover

structure Position where
  x : UInt64
  y : UInt64
  deriving DecidableEq, Repr

structure Grid where
  width : UInt64
  height : UInt64
  rover : Position
  deriving DecidableEq, Repr

/-- Why a grid cannot be set up. -/
inductive GridError
  | tooSmall (width height : UInt64)
  | startOutside (width height : UInt64) (start : Position)
  deriving DecidableEq, Repr

def GridError.message : GridError → String
  | .tooSmall width height =>
    "Grid must be at least 1x1, got " ++ toString width ++ "x" ++ toString height
  | .startOutside width height start =>
    "Rover start (" ++ toString start.x ++ ", " ++ toString start.y ++ ") lies outside of the " ++
      toString width ++ "x" ++ toString height ++ " grid"

namespace Grid

open Script

/-- A grid with at least one cell and the rover on it. -/
def create (width height : UInt64) (start : Position) : Except GridError Grid :=
  if width = 0 ∨ height = 0 then .error (.tooSmall width height)
  else if start.x < width ∧ start.y < height then .ok ⟨width, height, start⟩
  else .error (.startOutside width height start)

/-- The place ahead on an axis of `size` places, if there is one. -/
def ahead? (size place : UInt64) : Option UInt64 :=
  if place + 1 < size then some (place + 1) else none

/-- The place behind, if there is one. -/
def behind? (place : UInt64) : Option UInt64 := if 0 < place then some (place - 1) else none

/-- The cell that the rover moves to, if there is one. -/
def neighbour? (g : Grid) : Direction → Option Position
  | .right => (ahead? g.width g.rover.x).map fun x => { g.rover with x := x }
  | .forward => (ahead? g.height g.rover.y).map fun y => { g.rover with y := y }
  | .left => (behind? g.rover.x).map fun x => { g.rover with x := x }
  | .backward => (behind? g.rover.y).map fun y => { g.rover with y := y }

def handle (g : Grid) : Command → Grid
  | .endOfProgram => g
  | .move direction =>
    match g.neighbour? direction with
    | some position => { g with rover := position }
    | none => g

/-- The places of an axis, from the first to the last. -/
def places (size : UInt64) : List UInt64 := (List.range size.toNat).map UInt64.ofNat

/-- One row of cells, a `1` where the rover stands. -/
def row (g : Grid) (y : UInt64) : List Char :=
  (places g.width).map fun x => if g.rover = ⟨x, y⟩ then '1' else '0'

/-- The rows from the first to the last, each ended by a line feed. -/
def text (g : Grid) : String :=
  String.ofList ((places g.height).flatMap fun y => g.row y ++ ['\n'])

end Grid

end GridRover
