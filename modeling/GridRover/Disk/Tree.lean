import GridRover.Disk.Basic

/-!
# A disk held in memory

Files are listed by their path from the working directory. A directory exists when a file
lies below it. Above the working directory there are only the directories that it lies in,
and at the root those that every system has, with the two devices that hold nothing.
-/
namespace GridRover.Disk

/-- Where a path leads: below the working directory, above it, or below the root. -/
inductive Place
  | within (parts : List String)
  | above
  | system (parts : List String)
  deriving DecidableEq, Repr

/-- The directory that a place lies in. The root lies in itself. -/
def Place.up : Place → Place
  | .within [] => .above
  | .within parts => .within parts.dropLast
  | .above => .above
  | .system parts => .system parts.dropLast

/-- The greatest number of bytes in one part of a path. -/
def longestPart : Nat := 255

/-- The greatest number of bytes in a path. -/
def longestPath : Nat := 4095

def systemDirectories : List String :=
  ["bin", "dev", "etc", "home", "lib", "media", "mnt", "opt", "proc", "root", "run", "sbin", "srv",
    "sys", "tmp", "usr", "var"]

def emptyDevices : List (List String) := [["dev", "null"], ["dev", "stdin"]]

/-- What a name in a directory stands for. -/
inductive Entry
  | directory (place : Place)
  | file (bytes : ByteArray)

structure Tree where
  files : List (List String × ByteArray)

namespace Tree

def ofFiles (files : List (String × ByteArray)) : Tree :=
  ⟨files.map fun (path, bytes) => ((path.splitOn "/").filter (!isVoid ·), bytes)⟩

/-- A file lies below the parts of a path. -/
def isDirectory (t : Tree) (parts : List String) : Bool :=
  t.files.any fun (file, _) => parts.isPrefixOf file && file != parts

def entry? (t : Tree) (place : Place) (name : String) : Option Entry :=
  match place with
  | .within parts =>
    let here := parts ++ [name]
    if t.isDirectory here then some (.directory (.within here))
    else (t.files.lookup here).map .file
  | .above => none
  | .system parts =>
    let here := parts ++ [name]
    if parts = [] && systemDirectories.contains name then some (.directory (.system here))
    else if emptyDevices.contains here then some (.file ByteArray.empty)
    else none

/-- Follows the parts of a path from a directory. -/
def follow (t : Tree) (place : Place) : List String → Except ReadError ByteArray
  | [] => .error .directory
  | part :: parts =>
    if isVoid part then t.follow place parts
    else if part = ".." then t.follow place.up parts
    else if longestPart < part.utf8ByteSize then .error .nameTooLong
    else
      match t.entry? place part with
      | none => .error .missing
      | some (.directory next) => t.follow next parts
      | some (.file bytes) => if parts = [] then .ok bytes else .error .notDirectory

def bytes (t : Tree) (path : String) : Except ReadError ByteArray :=
  if path = "" then .error .missing
  else if longestPath < path.utf8ByteSize then .error .nameTooLong
  else
    t.follow (if path.toList.head? = some '/' then .system [] else .within []) (path.splitOn "/")

end Tree

def ofTree (t : Tree) : Disk := ⟨t.bytes⟩

end GridRover.Disk
