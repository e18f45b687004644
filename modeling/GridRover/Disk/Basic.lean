/-!
# Disks and paths

A disk answers for each path with the bytes of a file or with the reason why there are
none.
-/
namespace GridRover

/-- Why a file gives no text. -/
inductive Disk.ReadError
  | missing
  | directory
  | notDirectory
  | nameTooLong
  | encoding
  | other (message : String)
  deriving DecidableEq, Repr

def Disk.ReadError.message : Disk.ReadError → String
  | .missing => "No such file or directory (os error 2)"
  | .directory => "Is a directory (os error 21)"
  | .notDirectory => "Not a directory (os error 20)"
  | .nameTooLong => "File name too long (os error 36)"
  | .encoding => "stream did not contain valid UTF-8"
  | .other message => message

structure Disk where
  bytes : String → Except Disk.ReadError ByteArray

namespace Disk

/-- The text of a file, which has to be UTF-8. -/
def text (d : Disk) (path : String) : Except ReadError String :=
  match d.bytes path with
  | .error e => .error e
  | .ok bytes =>
    match String.fromUTF8? bytes with
    | some text => .ok text
    | none => .error .encoding

def isFile (d : Disk) (path : String) : Bool :=
  match d.bytes path with
  | .ok _ => true
  | .error _ => false

end Disk

end GridRover

/-! ## Paths

A path is a text of parts divided by slashes. Empty parts and the part `.` stand for
nothing, except a `.` in front. -/

namespace GridRover.Disk

def isVoid (part : String) : Bool := part = "" || part = "."

def dropVoidEnd (parts : List String) : List String := (parts.reverse.dropWhile isVoid).reverse

/-- The directory that a path lies in; the empty path is the current one. The root and the
empty path lie in none. -/
def parent? (path : String) : Option String :=
  match path.splitOn "/" with
  | [] => none
  | front :: parts =>
    match dropVoidEnd parts with
    | [] => if front = "" then none else some ""
    | named =>
      match dropVoidEnd named.dropLast with
      | [] => some (if front = "" then "/" else front)
      | above => some (String.intercalate "/" (front :: above))

/-- The path of a name in a directory. -/
def join (directory name : String) : String :=
  if directory = "" then name
  else if directory.toList.getLast? = some '/' then directory ++ name
  else directory ++ "/" ++ name

end GridRover.Disk
