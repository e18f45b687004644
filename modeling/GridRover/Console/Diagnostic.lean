import GridRover.Console.Terminal
import GridRover.Script.Failure

/-!
# Diagnostics

A diagnostic shows a line of a script between its neighbours, with the statement underlined
and advice beside it. Blank neighbours are left out.
-/
namespace GridRover.Console

structure Diagnostic where
  path : String
  program : List String
  /-- Number of the line, counted from one. -/
  line : Nat
  message : String
  hint : Option String
  deriving DecidableEq

namespace Diagnostic

open Text

def ofFailure (path : String) (program : List String) (f : Script.Failure) : Diagnostic :=
  ⟨path, program, f.line, f.cause.message, f.cause.hint?⟩

/-- The line that is shown, empty if the script has no line of that number. -/
def text (d : Diagnostic) : String := (d.program[d.line - 1]?).getD ""

/-- What stands left of a line: its number, or as many spaces, and a bar. -/
def gutter (color : Bool) (d : Diagnostic) (numbered : Bool) : String :=
  let number := toString d.line
  let label := if numbered then paint color .blueBold number
    else String.ofList (List.replicate number.length ' ')
  label ++ " " ++ paint color .blueBold " | "

/-- The width of the blanks in front of a line, in bytes. -/
def indent (line : List Char) : Nat := Expression.byteLength (line.takeWhile isBlank)

/-- Tildes behind the caret, so that both together are as long as the statement. -/
def tildes (line : List Char) : String := String.ofList (List.replicate ((trim line).length - 1) '~')

/-- The line under the statement. -/
def indicator (color : Bool) (d : Diagnostic) : String :=
  let line := d.text.toList
  let hint := match d.hint with
    | some hint => paint color .redBold ("hint: " ++ hint)
    | none => paint color .bold ""
  String.ofList (List.replicate (indent line) ' ') ++ paint color .redBold "^" ++
    paint color .red (tildes line) ++ " " ++ hint

/-- A neighbouring line, unless it is blank or missing. -/
def neighbour (color : Bool) (d : Diagnostic) : Option String → List String
  | none => []
  | some line => if isEmptyLine line then [] else [d.gutter color false ++ line]

def previous? (d : Diagnostic) : Option String :=
  if 2 ≤ d.line then d.program[d.line - 2]? else none

/-- The line after the one shown. -/
def next? (d : Diagnostic) : Option String := d.program[d.line - 1 + 1]?

def lines (color : Bool) (d : Diagnostic) : List String :=
  [paint color .redBold "error" ++ ": " ++ paint color .bold d.message, ""] ++
    d.neighbour color d.previous? ++
    [d.gutter color true ++ d.text, d.gutter color false ++ d.indicator color] ++
    d.neighbour color d.next? ++
    ["", "In " ++ d.path ++ ":" ++ toString d.line, ""]

def render (color : Bool) (d : Diagnostic) : String :=
  String.join ((d.lines color).map (· ++ "\n"))

end Diagnostic

end GridRover.Console
