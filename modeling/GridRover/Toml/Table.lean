/-!
# TOML values and tables

A table remembers how it came to be, since that decides which later lines may still add
to it. An array of tables grows by its own headers and is kept apart from a plain array.
-/
namespace GridRover.Toml

inductive Origin
  /-- Named by its own header. -/
  | header
  /-- Named only inside the path of a header. -/
  | implied
  /-- Named inside a dotted key. -/
  | dotted
  /-- Written in braces, closed for good. -/
  | braces
  deriving DecidableEq, Repr

/-- Named entries in the order of their first mention. -/
structure Table (α : Type) where
  origin : Origin
  entries : List (String × α)

inductive Value
  | string (text : String)
  | integer (n : Int)
  | float (x : Float)
  | boolean (b : Bool)
  /-- A date, a time of day or both, as written. -/
  | moment (text : String)
  | array (items : List Value)
  | table (t : Table Value)
  | tables (elements : List (Table Value))

end GridRover.Toml

/-! ## Growing tables

Paths lead from table to table; those missing on the way are made. A path enters the last
table of an array of tables. A table in braces is closed, and a dotted key goes through no
table that has a header of its own. A name is given a value once. -/

namespace GridRover.Toml.Table

def empty (origin : Origin) : Table Value := ⟨origin, []⟩

/-- Puts a value under a name, in the place of an earlier one. -/
def put (t : Table Value) (name : String) (v : Value) : Table Value :=
  if (t.entries.lookup name).isSome then
    { t with entries := t.entries.map fun (key, old) => if key = name then (key, v) else (key, old) }
  else { t with entries := t.entries ++ [(name, v)] }

/-- Changes the table at the end of a path. Tables made on the way come from `origin`,
which is `dotted` for keys and `implied` for headers. -/
def change (origin : Origin) (f : Table Value → Option (Table Value)) :
    List String → Table Value → Option (Table Value)
  | [], t => f t
  | name :: path, t =>
    match t.entries.lookup name with
    | none => do return t.put name (.table (← change origin f path (empty origin)))
    | some (.table child) =>
      if child.origin = .braces ∨ (child.origin = .header ∧ origin = .dotted) then none
      else do return t.put name (.table (← change origin f path child))
    | some (.tables elements) => do
      let last ← elements.getLast?
      return t.put name (.tables (elements.dropLast ++ [← change origin f path last]))
    | some _ => none

/-- Gives a new name its value. Only a plain key may go into a table that dotted keys did not make. -/
def assign (isDotted : Bool) (name : String) (v : Value) (t : Table Value) : Option (Table Value) :=
  if decide (t.origin = .dotted) = isDotted ∧ (t.entries.lookup name).isNone then some (t.put name v)
  else none

/-- Enters a key with its value. -/
def enter (key : List String) (v : Value) (t : Table Value) : Option (Table Value) := do
  let name ← key.getLast?
  change .dotted (assign (key.dropLast != []) name v) key.dropLast t

/-- Opens the table of a header. A table that headers below it have implied may still be opened. -/
def openTable (path : List String) (t : Table Value) : Option (Table Value) := do
  let name ← path.getLast?
  change .implied (fun parent =>
    match parent.entries.lookup name with
    | none => some (parent.put name (.table (empty .header)))
    | some (.table child) =>
      if child.origin = .implied then some (parent.put name (.table { child with origin := .header }))
      else none
    | some _ => none) path.dropLast t

/-- Opens a new last table in the array of a header. -/
def openElement (path : List String) (t : Table Value) : Option (Table Value) := do
  let name ← path.getLast?
  change .implied (fun parent =>
    match parent.entries.lookup name with
    | none => some (parent.put name (.tables [empty .header]))
    | some (.tables elements) => some (parent.put name (.tables (elements ++ [empty .header])))
    | some _ => none) path.dropLast t

end GridRover.Toml.Table
