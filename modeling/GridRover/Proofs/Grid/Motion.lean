import GridRover.Grid

/-!
# How the rover moves

A command changes the place of the rover on one axis at most, by a rule that reads nothing but
the extent of that axis and the place on it. So a rover that starts on its grid stays there,
which in turn keeps every sum and difference of a step within a word, and where the rover ends
up on an axis is decided by the moves along this axis alone.
-/
namespace GridRover

open Script

inductive Axis
  | x
  | y
  deriving DecidableEq

def Script.Direction.axis : Direction → Axis
  | .right | .left => .x
  | .forward | .backward => .y

/-- The command is a move along the axis. -/
def Script.Command.isAlong (axis : Axis) (command : Command) : Bool :=
  command.direction?.map Direction.axis == some axis

namespace Position

def on (p : Position) : Axis → UInt64
  | .x => p.x
  | .y => p.y

def set (p : Position) (place : UInt64) : Axis → Position
  | .x => { p with x := place }
  | .y => { p with y := place }

theorem on_set_self (p : Position) (place : UInt64) (axis : Axis) :
    (p.set place axis).on axis = place := by
  cases axis <;> rfl

theorem on_set_of_ne {axis other : Axis} (h : other ≠ axis) (p : Position) (place : UInt64) :
    (p.set place other).on axis = p.on axis := by
  cases axis <;> cases other <;> first | rfl | exact absurd rfl h

theorem ext_on {p q : Position} (h : ∀ axis, p.on axis = q.on axis) : p = q := by
  have hx : p.x = q.x := h .x
  have hy : p.y = q.y := h .y
  cases p
  cases q
  rw [mk.injEq]
  exact ⟨hx, hy⟩

end Position

namespace Grid

variable {g : Grid} {place size : UInt64}

def extent (g : Grid) : Axis → UInt64
  | .x => g.width
  | .y => g.height

/-- The rover stands on a cell of the grid. -/
def OnGrid (g : Grid) : Prop := ∀ axis, g.rover.on axis < g.extent axis

/-- The grid after commands. -/
def drive (g : Grid) (commands : List Command) : Grid := commands.foldl handle g

/-- Where a move leads from a place on its axis; at the edge it leads nowhere else. -/
def shift (size place : UInt64) : Direction → UInt64
  | .right | .forward => (ahead? size place).getD place
  | .left | .backward => (behind? place).getD place

/-- The cell that a move leads to: only the place on its own axis is another one. -/
def destination (g : Grid) (direction : Direction) : Position :=
  let axis := direction.axis
  g.rover.set (shift (g.extent axis) (g.rover.on axis) direction) axis

theorem neighbour?_getD (g : Grid) (direction : Direction) :
    (g.neighbour? direction).getD g.rover = g.destination direction := by
  cases direction <;> exact Option.getD_map ..

theorem handle_move (g : Grid) (direction : Direction) :
    g.handle (.move direction) = { g with rover := g.destination direction } := by
  rw [← neighbour?_getD, handle]
  cases g.neighbour? direction <;> rfl

theorem extent_handle (g : Grid) (command : Command) : (g.handle command).extent = g.extent := by
  rcases command with direction | _
  · rw [handle_move]
    rfl
  · rfl

/-- The place on an axis after a command is decided by the extent of this axis and the place
before it. -/
theorem on_handle (g : Grid) (axis : Axis) (command : Command) :
    (g.handle command).rover.on axis =
      match command with
      | .move direction =>
        if direction.axis = axis then shift (g.extent axis) (g.rover.on axis) direction
        else g.rover.on axis
      | .endOfProgram => g.rover.on axis := by
  rcases command with direction | _
  · rw [handle_move]
    simp only [destination]
    split
    case isTrue h => rw [h, Position.on_set_self]
    case isFalse h => rw [Position.on_set_of_ne h]
  · rfl

theorem on_handle_of_not_isAlong {axis : Axis} {command : Command}
    (h : command.isAlong axis = false) : (g.handle command).rover.on axis = g.rover.on axis := by
  rw [on_handle]
  rcases command with direction | _
  · have hne : direction.axis ≠ axis := by simpa [Command.isAlong, Command.direction?] using h
    exact if_neg hne
  · rfl

section Confinement

theorem toNat_sub_one (h : 0 < place) : (place - 1).toNat = place.toNat - 1 := by
  rw [UInt64.lt_iff_toNat_lt] at h
  exact UInt64.toNat_sub_of_le place 1 (UInt64.le_iff_toNat_le.mpr h)

theorem shift_lt (h : place < size) (direction : Direction) :
    shift size place direction < size := by
  have hahead : (ahead? size place).getD place < size := by
    rw [ahead?]
    split
    · assumption
    · exact h
  have hbehind : (behind? place).getD place < size := by
    rw [behind?]
    split
    case isTrue hplace =>
      rw [Option.getD_some, UInt64.lt_iff_toNat_lt, toNat_sub_one hplace]
      exact Nat.lt_of_le_of_lt (Nat.sub_le ..) (UInt64.lt_iff_toNat_lt.mp h)
    case isFalse => exact h
  cases direction
  case right | forward => exact hahead
  case left | backward => exact hbehind

theorem onGrid_handle (h : g.OnGrid) (command : Command) : (g.handle command).OnGrid := by
  intro axis
  rw [extent_handle, on_handle]
  split
  · split
    · exact shift_lt (h axis) _
    · exact h axis
  · exact h axis

theorem onGrid_drive (h : g.OnGrid) (commands : List Command) : (g.drive commands).OnGrid := by
  induction commands generalizing g with
  | nil => exact h
  | cons command rest ih => exact ih (onGrid_handle h command)

theorem extent_drive (g : Grid) (commands : List Command) :
    (g.drive commands).extent = g.extent := by
  induction commands generalizing g with
  | nil => rfl
  | cons command rest ih => exact (ih (g.handle command)).trans (extent_handle g command)

/-- A grid is set up just where the rover starts on it. -/
theorem create_eq_ok_iff {width height : UInt64} {start : Position} :
    create width height start = .ok g ↔ g = ⟨width, height, start⟩ ∧ g.OnGrid := by
  have honGrid : OnGrid ⟨width, height, start⟩ ↔ start.x < width ∧ start.y < height := by
    constructor
    · intro h
      exact ⟨h .x, h .y⟩
    · rintro ⟨hx, hy⟩ (_ | _)
      · exact hx
      · exact hy
  rw [create]
  constructor
  · intro h
    split at h
    · cases h
    · split at h
      case isTrue hstart =>
        cases h
        exact ⟨rfl, honGrid.mpr hstart⟩
      case isFalse => cases h
  · rintro ⟨rfl, h⟩
    have hstart := honGrid.mp h
    have hsize : ¬ (width = 0 ∨ height = 0) := by
      rintro (rfl | rfl)
      · exact UInt64.not_lt_zero hstart.1
      · exact UInt64.not_lt_zero hstart.2
    rw [if_neg hsize, if_pos hstart]

end Confinement

section Words

/-- One more, where this is a word. -/
def succ? (n : UInt64) : Option UInt64 := if n.toNat + 1 < UInt64.size then some (n + 1) else none

/-- One less, where this is a word. -/
def pred? (n : UInt64) : Option UInt64 := if 1 ≤ n.toNat then some (n - 1) else none

/-- The grid after a command, unless a sum or a difference on the way is not a word. -/
def handleChecked? (g : Grid) : Command → Option Grid
  | .move .right => do
    let x ← succ? g.rover.x
    return if x < g.width then { g with rover.x := x } else g
  | .move .forward => do
    let y ← succ? g.rover.y
    return if y < g.height then { g with rover.y := y } else g
  | .move .left =>
    if 0 < g.rover.x then do
      let x ← pred? g.rover.x
      return { g with rover.x := x }
    else some g
  | .move .backward =>
    if 0 < g.rover.y then do
      let y ← pred? g.rover.y
      return { g with rover.y := y }
    else some g
  | .endOfProgram => some g

theorem succ?_of_lt (h : place < size) : succ? place = some (place + 1) :=
  if_pos (Nat.lt_of_le_of_lt (UInt64.lt_iff_toNat_lt.mp h) size.toNat_lt_size)

theorem pred?_of_pos (h : 0 < place) : pred? place = some (place - 1) :=
  if_pos (UInt64.lt_iff_toNat_lt.mp h)

theorem handleChecked?_eq (h : g.OnGrid) (command : Command) :
    g.handleChecked? command = some (g.handle command) := by
  have hx : succ? g.rover.x = some (g.rover.x + 1) := succ?_of_lt (h .x)
  have hy : succ? g.rover.y = some (g.rover.y + 1) := succ?_of_lt (h .y)
  rcases command with (_ | _ | _ | _) | _
  · by_cases hroom : g.rover.x + 1 < g.width <;>
      simp [handleChecked?, handle, neighbour?, ahead?, hx, hroom]
  · by_cases hroom : g.rover.y + 1 < g.height <;>
      simp [handleChecked?, handle, neighbour?, ahead?, hy, hroom]
  · by_cases hroom : 0 < g.rover.x <;>
      simp [handleChecked?, handle, neighbour?, behind?, pred?_of_pos, hroom]
  · by_cases hroom : 0 < g.rover.y <;>
      simp [handleChecked?, handle, neighbour?, behind?, pred?_of_pos, hroom]
  · rfl

-- A rover beyond the grid would get out of the words.
example : handleChecked? ⟨3, 3, ⟨18446744073709551615, 0⟩⟩ (.move .right) = none := by decide

/-- On the way of a rover that starts on its grid every sum and every difference is a word. -/
theorem foldlM_handleChecked? (h : g.OnGrid) (commands : List Command) :
    commands.foldlM handleChecked? g = some (g.drive commands) := by
  induction commands generalizing g with
  | nil => rfl
  | cons command rest ih =>
    rw [List.foldlM_cons, handleChecked?_eq h]
    exact ih (onGrid_handle h command)

end Words

section Independence

/-- What stands in the way of a move on one axis does not depend on the other one. -/
theorem on_handle_congr {g₁ g₂ : Grid} {axis : Axis} (hextent : g₁.extent axis = g₂.extent axis)
    (hplace : g₁.rover.on axis = g₂.rover.on axis) (command : Command) :
    (g₁.handle command).rover.on axis = (g₂.handle command).rover.on axis := by
  rw [on_handle, on_handle, hextent, hplace]

theorem on_drive_congr {g₁ g₂ : Grid} {axis : Axis} (hextent : g₁.extent axis = g₂.extent axis)
    (hplace : g₁.rover.on axis = g₂.rover.on axis) (commands : List Command) :
    (g₁.drive commands).rover.on axis = (g₂.drive commands).rover.on axis := by
  induction commands generalizing g₁ g₂ with
  | nil => exact hplace
  | cons command rest ih =>
    apply ih
    · rw [extent_handle, extent_handle, hextent]
    · exact on_handle_congr hextent hplace command

/-- The moves along an axis alone lead to the same place on it. -/
theorem on_drive_filter (g : Grid) (axis : Axis) (commands : List Command) :
    (g.drive (commands.filter (Command.isAlong axis))).rover.on axis =
      (g.drive commands).rover.on axis := by
  induction commands generalizing g with
  | nil => rfl
  | cons command rest ih =>
    cases halong : command.isAlong axis with
    | true =>
      rw [List.filter_cons_of_pos halong]
      exact ih (g.handle command)
    | false =>
      rw [List.filter_cons_of_neg (by simp [halong]), ih]
      apply on_drive_congr
      · rw [extent_handle]
      · exact (on_handle_of_not_isAlong halong).symm

theorem on_drive_eq_of_filter {axis : Axis} {commands others : List Command}
    (h : others.filter (Command.isAlong axis) = commands.filter (Command.isAlong axis)) :
    (g.drive others).rover.on axis = (g.drive commands).rover.on axis := by
  rw [← on_drive_filter, h, on_drive_filter]

/-- A rover that starts on its grid stays on it, whatever the extents are: after any commands
it stands on a cell of a grid as wide and as high as before, and no sum and no difference on
the way leaves the words. Where it ends up on an axis is decided by the moves along this axis,
so commands that agree on both axes lead to the same cell, however they are interleaved and
wherever a program ends among them. -/
theorem drive_of_create {width height : UInt64} {start : Position}
    (h : create width height start = .ok g) (commands : List Command) :
    let last := g.drive commands
    last.rover.x < last.width ∧ last.rover.y < last.height ∧
      last.width = width ∧ last.height = height ∧
      commands.foldlM handleChecked? g = some last ∧
      (∀ others : List Command,
        others.filter (Command.isAlong .x) = commands.filter (Command.isAlong .x) →
          (g.drive others).rover.x = last.rover.x) ∧
      (∀ others : List Command,
        others.filter (Command.isAlong .y) = commands.filter (Command.isAlong .y) →
          (g.drive others).rover.y = last.rover.y) ∧
      ∀ others : List Command,
        (∀ axis, others.filter (Command.isAlong axis) = commands.filter (Command.isAlong axis)) →
          (g.drive others).rover = last.rover := by
  intro last
  obtain ⟨rfl, honGrid⟩ := create_eq_ok_iff.mp h
  have hlast : last.OnGrid := onGrid_drive honGrid commands
  have hextent := extent_drive ⟨width, height, start⟩ commands
  refine ⟨hlast .x, hlast .y, congrFun hextent .x, congrFun hextent .y,
    foldlM_handleChecked? honGrid commands, ?_, ?_, ?_⟩
  · intro others hothers
    exact on_drive_eq_of_filter hothers
  · intro others hothers
    exact on_drive_eq_of_filter hothers
  · intro others hothers
    apply Position.ext_on
    intro axis
    exact on_drive_eq_of_filter (hothers axis)

/-- At the far edge of the widest grid there is. -/
theorem drive_of_create_widest :
    let g : Grid := ⟨18446744073709551615, 2, ⟨18446744073709551614, 0⟩⟩
    let commands : List Command :=
      [.move .right, .move .forward, .move .left, .move .right, .move .right, .endOfProgram]
    let others : List Command :=
      [.move .forward, .endOfProgram, .move .right, .move .left, .move .right, .move .right]
    create 18446744073709551615 2 ⟨18446744073709551614, 0⟩ = .ok g ∧
      (g.drive commands).rover.x < (g.drive commands).width ∧
      commands.foldlM handleChecked? g = some (g.drive commands) ∧
      (g.drive others).rover = (g.drive commands).rover ∧
      (g.drive commands).rover = ⟨18446744073709551614, 1⟩ := by
  intro g commands others
  have hcreate : create 18446744073709551615 2 ⟨18446744073709551614, 0⟩ = .ok g := rfl
  obtain ⟨hx, -, -, -, hchecked, -, -, hsame⟩ := drive_of_create hcreate commands
  have hfilter : ∀ axis, others.filter (Command.isAlong axis) =
      commands.filter (Command.isAlong axis) := by
    intro axis
    cases axis <;> decide
  exact ⟨hcreate, hx, hchecked, hsame others hfilter, by decide⟩

end Independence

end Grid

end GridRover
