import GridRover.Number.Binary

/-!
# Variables

A store holds each declared name once, with its type and current value, in
ascending order of the names. Two stores with the same contents are therefore equal,
whatever the order of the declarations.
-/
namespace GridRover

inductive VariableType
  | int
  | float
  deriving DecidableEq, Repr

namespace VariableType

def name : VariableType → String
  | .int => "int"
  | .float => "float"

/-- The value a declaration stores: integers lose their fraction. -/
def coerce : VariableType → Float → Float
  | .int, x => Number.truncate x
  | .float, x => x

/-- The name of a type inside the written form of a structure. -/
def label : VariableType → String
  | .int => "Int"
  | .float => "Float"

end VariableType

structure Variable where
  type : VariableType
  value : Float
  deriving DecidableEq

/-- Variables by name, the names strictly ascending. -/
structure Store where
  entries : List (String × Variable)
  ascending : entries.Pairwise fun a b => a.1 < b.1
  deriving DecidableEq

namespace Store

def empty : Store := ⟨[], .nil⟩

def isEmpty (s : Store) : Bool := s.entries.isEmpty

def names (s : Store) : List String := s.entries.map (·.1)

/-- The variable of a name. -/
def find? (s : Store) (name : String) : Option Variable := s.entries.lookup name

def contains (s : Store) (name : String) : Bool := (s.find? name).isSome

/-- The current value of a name. -/
def get? (s : Store) (name : String) : Option Float := (s.find? name).map (·.value)

/-- Puts an entry where its name belongs, in place of an entry of the same name. -/
def place (name : String) (v : Variable) : List (String × Variable) → List (String × Variable)
  | [] => [(name, v)]
  | entry :: rest =>
    if name < entry.1 then (name, v) :: entry :: rest
    else if entry.1 < name then entry :: place name v rest
    else (name, v) :: rest

theorem mem_place {name : String} {v : Variable} {entries : List (String × Variable)}
    {x : String × Variable} (h : x ∈ place name v entries) : x = (name, v) ∨ x ∈ entries := by
  induction entries with
  | nil => simpa [place] using h
  | cons entry rest ih =>
    unfold place at h
    grind

theorem place_ascending {name : String} {v : Variable} {entries : List (String × Variable)}
    (h : entries.Pairwise fun a b => a.1 < b.1) :
    (place name v entries).Pairwise fun a b => a.1 < b.1 := by
  induction entries with
  | nil => simp [place]
  | cons entry rest ih =>
    rw [List.pairwise_cons] at h
    unfold place
    split
    · rename_i hlt
      refine List.pairwise_cons.mpr ⟨?_, List.pairwise_cons.mpr h⟩
      intro x hx
      rcases List.mem_cons.mp hx with rfl | hx
      · exact hlt
      · exact String.lt_trans hlt (h.1 x hx)
    · split
      · rename_i hge
        refine List.pairwise_cons.mpr ⟨?_, ih h.2⟩
        intro x hx
        rcases mem_place hx with rfl | hx
        · exact hge
        · exact h.1 x hx
      · rename_i hnl hng
        have he : name = entry.1 := String.le_antisymm hng hnl
        exact List.pairwise_cons.mpr ⟨fun x hx => he ▸ h.1 x hx, h.2⟩

/-- The store in which a name has the given variable. -/
def insert (s : Store) (name : String) (v : Variable) : Store :=
  ⟨place name v s.entries, place_ascending s.ascending⟩

/-- Adds a new name; an existing one is refused. -/
def declare? (s : Store) (name : String) (type : VariableType) (value : Float) : Option Store :=
  if s.contains name then none else some (s.insert name ⟨type, value⟩)

/-- Changes the value of an existing name; its type stays. -/
def set? (s : Store) (name : String) (value : Float) : Option Store :=
  (s.find? name).map fun v => s.insert name { v with value := value }

end Store

end GridRover
