import GridRover.Toml.Text
import GridRover.Toml.Scalar
import GridRover.Toml.Table

/-!
# Reading a document

A document is a list of lines: headers, and keys with their values, entered into the table
of the last header. Values nest, and dotted keys are, less than eighty deep.
-/
namespace GridRover.Toml

def isBareKeyChar (c : Char) : Bool := c.isAlphanum || c = '-' || c = '_'

/-- One part of a key: a bare word or a string on one line. -/
def keyPart? : Parser String := fun cs =>
  match cs with
  | '"' :: _ | '\'' :: _ => do
    let (text, rest) ← singleLine? cs
    return (String.ofList text, rest)
  | _ =>
    let word := cs.takeWhile isBareKeyChar
    if word = [] then none else some (String.ofList word, cs.dropWhile isBareKeyChar)

/-- The bound on nested values and on the parts of a key. -/
def nestingLimit : Nat := 80

/-- Up to `n` parts divided by dots, with spaces around them. -/
def keyParts? : Nat → Parser (List String)
  | 0, _ => none
  | n + 1, cs => do
    let (part, rest) ← keyPart? (skipSpaces cs)
    match skipSpaces rest with
    | '.' :: more =>
      let (parts, last) ← keyParts? n more
      return (part :: parts, last)
    | last => return ([part], last)

def key? : Parser (List String) := keyParts? (nestingLimit - 1)

/-- The values of an array after its opening bracket. -/
def arrayTail (value? : Parser Value) (cs : List Char) : Option (List Value × List Char) :=
  match skipLines cs with
  | ']' :: rest => some ([], rest)
  | start => do
    let (v, rest) ← value? start
    match skipLines rest with
    | ']' :: last => return ([v], last)
    | ',' :: more =>
      if more.length < cs.length then
        let (vs, last) ← arrayTail value? more
        return (v :: vs, last)
      else none
    | _ => none
termination_by cs.length

/-- A key, an equals sign and a value, with spaces around each. -/
def pair? (value? : Parser Value) : Parser (List String × Value) := fun cs => do
  let (key, rest) ← key? cs
  match rest with
  | '=' :: more =>
    let (v, last) ← value? (skipSpaces more)
    return ((key, v), skipSpaces last)
  | _ => none

/-- The entries of a table in braces after the opening brace, or after a comma in it. -/
def bracesTail (value? : Parser Value) (t : Table Value) (cs : List Char) :
    Option (Table Value × List Char) := do
  let ((key, v), rest) ← pair? value? cs
  let grown ← t.enter key v
  match rest with
  | '\x7d' :: last => return (grown, last)
  | ',' :: more => if more.length < cs.length then bracesTail value? grown more else none
  | _ => none
termination_by cs.length

/-- A value, with at most `depth` arrays and tables around each other in it. -/
def value? : Nat → Parser Value
  | depth, cs =>
    match cs with
    | '"' :: _ | '\'' :: _ => do
      let (text, rest) ← string? cs
      return (.string (String.ofList text), rest)
    | '[' :: rest =>
      match depth with
      | 0 => none
      | depth + 1 => do
        let (items, last) ← arrayTail (value? depth) rest
        return (.array items, last)
    | '\x7b' :: rest =>
      match depth with
      | 0 => none
      | depth + 1 =>
        match skipSpaces rest with
        | '\x7d' :: last => some (.table (Table.empty .braces), last)
        | start => do
          let (t, last) ← bracesTail (value? depth) (Table.empty .braces) start
          return (.table t, last)
    | _ => scalar? cs

/-- A document read so far: its root table and the path of the last header. -/
structure Draft where
  root : Table Value
  path : List String

/-- Enters a key into the table of the last header. -/
def Draft.enter (d : Draft) (key : List String) (v : Value) : Option Draft := do
  let root ← Table.change .implied (Table.enter key v) d.path d.root
  return { d with root := root }

/-- One line that starts with a header or a key. -/
def entry? (d : Draft) (cs : List Char) : Option (Draft × List Char) :=
  match cs with
  | '[' :: '[' :: rest => do
    let (path, rest) ← key? rest
    match rest with
    | ']' :: ']' :: rest => return (⟨← d.root.openElement path, path⟩, ← restOfLine? rest)
    | _ => none
  | '[' :: rest => do
    let (path, rest) ← key? rest
    match rest with
    | ']' :: rest => return (⟨← d.root.openTable path, path⟩, ← restOfLine? rest)
    | _ => none
  | _ => do
    let ((key, v), rest) ← pair? (value? (nestingLimit - 1)) cs
    return (← d.enter key v, ← restOfLine? rest)

/-- The remaining lines of a document. -/
def entries (d : Draft) (cs : List Char) : Option (Table Value) :=
  match skipLines cs with
  | [] => some d.root
  | start =>
    if skipComment start = [] then some d.root
    else
      match entry? d start with
      | none => none
      | some (next, rest) => if rest.length < cs.length then entries next rest else none
termination_by cs.length

/-- The root table of a document. A byte order mark at its start is dropped. -/
def read? (text : String) : Option (Table Value) :=
  let cs := match text.toList with
    | '\ufeff' :: rest => rest
    | cs => cs
  entries ⟨Table.empty .header, []⟩ cs

end GridRover.Toml
