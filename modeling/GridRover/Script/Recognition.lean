import GridRover.Number.Literal
import GridRover.Script.Statement
import GridRover.Text.Basic

/-!
# Recognising a line

Six patterns are tried in turn. All but the blank line need a semicolon at the end;
what stands before it, without the blanks around it, is the body of the line.
-/
namespace GridRover.Script.Statement

open Text

/-- The text before the closing semicolon. -/
def body? (line : List Char) : Option (List Char) :=
  if (trim line).getLast? = some ';' then some (trimEnd (trim line).dropLast) else none

/-- A name that is no keyword, and what follows it. -/
def splitVariable? (cs : List Char) : Option (List Char × List Char) := do
  let (name, rest) ← splitName? cs
  if isReserved (String.ofList name) then none else some (name, rest)

/-- A type, at least one blank and a variable name, and what follows them. -/
def splitDeclaration? (body : List Char) : Option (VariableType × List Char × List Char) := do
  let (word, rest) ← splitName? body
  let keyword ← Keyword.ofText? (String.ofList word)
  let type ← keyword.type?
  if rest.head?.any isBlank then
    let (name, rest) ← splitVariable? (trimStart rest)
    some (type, name, trimStart rest)
  else none

/-- The expression of a declaration or update; it must not be blank. -/
def expression? (cs : List Char) : Option String :=
  if trim cs = [] then none else some (String.ofList (trim cs))

/-- The line number written by an optional minus and digits. Line numbers are words; a literal
that fits none counts as the nearest one. -/
def target? (literal : List Char) : Option Int :=
  let (negative, digits) := match literal with
    | '-' :: digits => (true, digits)
    | digits => (false, digits)
  if digits ≠ [] ∧ digits.all Char.isDigit then
    some ((Number.wordOf? negative digits).getD (Number.outermostWord negative))
  else none

def movement? (line : List Char) : Option Statement := do
  let body ← body? line
  let keyword ← Keyword.ofText? (String.ofList body)
  let direction ← keyword.direction?
  some (.move direction)

/-- The jump needs no blank between the word and the number. -/
def goto? (line : List Char) : Option Statement := do
  let body ← body? line
  let rest ← Keyword.goto.text.toList.isPrefixOf? body
  let target ← target? (trimStart rest)
  some (.goto target)

def initialized? (line : List Char) : Option Statement := do
  let body ← body? line
  let (type, name, rest) ← splitDeclaration? body
  let rest ← ['='].isPrefixOf? rest
  let expression ← expression? rest
  some (.declaration type (String.ofList name) (some expression))

def uninitialized? (line : List Char) : Option Statement := do
  let body ← body? line
  let (type, name, rest) ← splitDeclaration? body
  if rest = [] then some (.declaration type (String.ofList name) none) else none

/-- The assignment at the start of a text, and what follows it. -/
def splitAssignment? (cs : List Char) : Option (Assignment × List Char) :=
  Assignment.all.findSome? fun assignment =>
    (assignment.text.toList.isPrefixOf? cs).map fun rest => (assignment, rest)

def update? (line : List Char) : Option Statement := do
  let body ← body? line
  let (name, rest) ← splitVariable? body
  let (assignment, rest) ← splitAssignment? (trimStart rest)
  let expression ← expression? rest
  some (.update (String.ofList name) assignment expression)

def blank? (line : List Char) : Option Statement := if trim line = [] then some .blank else none

/-- The patterns in the order in which they are tried. -/
def patterns : List (List Char → Option Statement) :=
  [movement?, goto?, initialized?, uninitialized?, update?, blank?]

/-- The statement on a line. -/
def ofLine? (line : String) : Option Statement := patterns.findSome? fun pattern => pattern line.toList

end GridRover.Script.Statement
