import GridRover.Disk.Basic
import GridRover.Toml.Reader

/-!
# Settings

Three sections of a TOML document, each optional and each with defaults for what it leaves
out. Unknown names are ignored. A section may also be an array that gives its values in
order, and one that is a date or a time counts as a table without known names.
-/
namespace GridRover

structure LogSettings where
  debug : Bool
  deriving DecidableEq, Repr

structure GridSettings where
  width : UInt64
  height : UInt64
  startX : UInt64
  startY : UInt64
  deriving DecidableEq, Repr

structure RunSettings where
  showGrid : Bool
  /-- Bound on the steps of a run. -/
  maxSteps : Option Nat
  deriving DecidableEq, Repr

structure Settings where
  log : LogSettings
  grid : GridSettings
  run : RunSettings
  deriving DecidableEq, Repr

namespace Settings

open Toml

def default : Settings := ⟨⟨false⟩, ⟨10, 10, 4, 4⟩, ⟨false, none⟩⟩

/-- The values of a section by their place and name. -/
def fields? : Value → Option (Nat → String → Option Value)
  | .table t => some fun _ name => t.entries.lookup name
  | .array items => some fun place _ => items[place]?
  | .tables elements => some fun place _ => elements[place]?.map Value.table
  | .moment _ => some fun _ _ => none
  | _ => none

def boolean? (fallback : Bool) : Option Value → Option Bool
  | none => some fallback
  | some (.boolean b) => some b
  | some _ => none

def natural? : Value → Option Nat
  | .integer (.ofNat n) => some n
  | _ => none

/-- A natural number that fits a word of 64 bits. -/
def word? (v : Value) : Option UInt64 := do
  let n ← natural? v
  if n < UInt64.size then some (UInt64.ofNat n) else none

def wordOr? (fallback : UInt64) : Option Value → Option UInt64
  | none => some fallback
  | some v => word? v

/-- Reads a section, taking all defaults if it is missing. -/
def section? (fallback : α) (read : Value → Option α) : Option Value → Option α
  | none => some fallback
  | some v => read v

def log? (v : Value) : Option LogSettings := do
  let field ← fields? v
  return ⟨← boolean? default.log.debug (field 0 "debug")⟩

def grid? (v : Value) : Option GridSettings := do
  let field ← fields? v
  return ⟨← wordOr? default.grid.width (field 0 "width"),
    ← wordOr? default.grid.height (field 1 "height"),
    ← wordOr? default.grid.startX (field 2 "start-x"),
    ← wordOr? default.grid.startY (field 3 "start-y")⟩

def run? (v : Value) : Option RunSettings := do
  let field ← fields? v
  let maxSteps ← match field 1 "max-steps" with
    | none => some default.run.maxSteps
    | some v => (natural? v).map some
  return ⟨← boolean? default.run.showGrid (field 0 "show-grid"), maxSteps⟩

def ofTable? (t : Table Value) : Option Settings := do
  return ⟨← section? default.log log? (t.entries.lookup "log"),
    ← section? default.grid grid? (t.entries.lookup "grid"),
    ← section? default.run run? (t.entries.lookup "run")⟩

def ofText? (text : String) : Option Settings := do ofTable? (← Toml.read? text)

/-- The name of the file that is looked for beside a script. -/
def fileName : String := "rover.toml"

/-- The file to read: the one asked for, or the one in the directory if it is there. -/
def path? (disk : Disk) (explicit directory : Option String) : Option String :=
  match explicit with
  | some path => some path
  | none =>
    match directory.map (Disk.join · fileName) with
    | some path => if disk.isFile path then some path else none
    | none => none

/-- Why settings cannot be had. -/
inductive LoadError
  | unreadable (path : String) (cause : Disk.ReadError)
  | invalid (path : String)
  deriving DecidableEq

def LoadError.message : LoadError → String
  | .unreadable path cause => "Could not read configuration file " ++ path ++ ": " ++ cause.message
  | .invalid path => "Invalid configuration in " ++ path ++ ": TOML parse error"

def loadFile (disk : Disk) (path : String) : Except LoadError Settings :=
  match disk.text path with
  | .error cause => .error (.unreadable path cause)
  | .ok text =>
    match ofText? text with
    | some settings => .ok settings
    | none => .error (.invalid path)

/-- The settings of the file to read; without one, the defaults. -/
def load (disk : Disk) (explicit directory : Option String) : Except LoadError Settings :=
  match path? disk explicit directory with
  | some path => loadFile disk path
  | none => .ok default

end Settings

end GridRover
