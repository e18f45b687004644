/-!
# The text of a TOML document
-/
namespace GridRover.Toml

/-! ## Spaces, comments and line ends

A line ends with a line feed or a carriage return and a line feed. A comment runs to
the end of its line and holds no control character but the tab. -/

/-- What a parser leaves of the text, with the thing it read. -/
abbrev Parser (α : Type) := List Char → Option (α × List Char)

def isSpace (c : Char) : Bool := c = ' ' || c = '\t'

def skipSpaces (cs : List Char) : List Char := cs.dropWhile isSpace

/-- A tab, or a character that is no control character. -/
def isPlain (c : Char) : Bool := c = '\t' || (' ' ≤ c && c != '\x7f')

/-- The text after one line end. -/
def lineEnd? : List Char → Option (List Char)
  | '\n' :: rest => some rest
  | '\r' :: '\n' :: rest => some rest
  | _ => none

/-- The text after a comment, if there is one. -/
def skipComment : List Char → List Char
  | '#' :: rest => rest.dropWhile isPlain
  | cs => cs

/-- The text after the spaces, the comment and the line end that may follow a complete entry.
The end of the text ends a line too. -/
def restOfLine? (cs : List Char) : Option (List Char) :=
  match skipComment (skipSpaces cs) with
  | [] => some []
  | rest => lineEnd? rest

/-- The text after spaces, line ends and comments that end with their line. -/
def skipLines (cs : List Char) : List Char :=
  match lineEnd? (skipComment (skipSpaces cs)) with
  | some rest => if rest.length < cs.length then skipLines rest else rest
  | none => skipSpaces cs
termination_by cs.length

/-! ## Strings

Basic strings take escapes, literal strings none. Both have a form over several lines
between triple quotes, where up to two quotes may stand right before the closing ones
and a line end right after the opening ones is dropped. -/

def hexValue? (c : Char) : Option Nat :=
  if c.isDigit then some (c.toNat - '0'.toNat)
  else if 'a' ≤ c ∧ c ≤ 'f' then some (c.toNat - 'a'.toNat + 10)
  else if 'A' ≤ c ∧ c ≤ 'F' then some (c.toNat - 'A'.toNat + 10)
  else none

/-- The character with a hexadecimal code; surrogates and codes out of range name none. -/
def coded? (digits : List Char) : Option Char := do
  let code ← digits.foldlM (fun n c => (hexValue? c).map (16 * n + ·)) 0
  if code.isValidChar then some (Char.ofNat code) else none

def escaped? : Char → Option Char
  | 'b' => some '\x08'
  | 't' => some '\t'
  | 'n' => some '\n'
  | 'f' => some '\x0c'
  | 'r' => some '\r'
  | '"' => some '"'
  | '\\' => some '\\'
  | _ => none

/-- Puts a character in front of what a parser read. -/
def consTo (c : Char) : List Char × List Char → List Char × List Char
  | (read, rest) => (c :: read, rest)

/-- The rest of a basic string after its opening quote. -/
def basicTail : Parser (List Char)
  | [] => none
  | '"' :: rest => some ([], rest)
  | '\\' :: 'u' :: a :: b :: c :: d :: rest => do
    let char ← coded? [a, b, c, d]
    return consTo char (← basicTail rest)
  | '\\' :: 'U' :: a :: b :: c :: d :: e :: f :: g :: h :: rest => do
    let char ← coded? [a, b, c, d, e, f, g, h]
    return consTo char (← basicTail rest)
  | '\\' :: c :: rest => do
    let char ← escaped? c
    return consTo char (← basicTail rest)
  | c :: rest => if isPlain c && c != '\\' then return consTo c (← basicTail rest) else none

/-- The rest of a literal string after its opening quote. -/
def literalTail : Parser (List Char)
  | [] => none
  | '\'' :: rest => some ([], rest)
  | c :: rest => if isPlain c then return consTo c (← literalTail rest) else none

/-- A backslash before this text drops the blanks up to the next character on a later line. -/
def continuesLine (cs : List Char) : Bool := (lineEnd? (skipSpaces cs)).isSome

/-- The rest of a basic string over several lines; `dropping` after a backslash at a line end. -/
def basicLinesTail (dropping : Bool) : Parser (List Char)
  | '"' :: '"' :: '"' :: '"' :: '"' :: rest => some (['"', '"'], rest)
  | '"' :: '"' :: '"' :: '"' :: rest => some (['"'], rest)
  | '"' :: '"' :: '"' :: rest => some ([], rest)
  | '\\' :: 'u' :: a :: b :: c :: d :: rest => do
    let char ← coded? [a, b, c, d]
    return consTo char (← basicLinesTail false rest)
  | '\\' :: 'U' :: a :: b :: c :: d :: e :: f :: g :: h :: rest => do
    let char ← coded? [a, b, c, d, e, f, g, h]
    return consTo char (← basicLinesTail false rest)
  | '\\' :: c :: rest =>
    if continuesLine (c :: rest) then basicLinesTail true (c :: rest)
    else do
      let char ← escaped? c
      return consTo char (← basicLinesTail false rest)
  | '\r' :: '\n' :: rest => do
    let tail ← basicLinesTail dropping rest
    return if dropping then tail else consTo '\n' tail
  | '\n' :: rest => do
    let tail ← basicLinesTail dropping rest
    return if dropping then tail else consTo '\n' tail
  | c :: rest =>
    if dropping && isSpace c then basicLinesTail true rest
    else if isPlain c && c != '\\' then return consTo c (← basicLinesTail false rest)
    else none
  | [] => none

/-- The rest of a literal string over several lines. -/
def literalLinesTail : Parser (List Char)
  | '\'' :: '\'' :: '\'' :: '\'' :: '\'' :: rest => some (['\'', '\''], rest)
  | '\'' :: '\'' :: '\'' :: '\'' :: rest => some (['\''], rest)
  | '\'' :: '\'' :: '\'' :: rest => some ([], rest)
  | '\r' :: '\n' :: rest => return consTo '\n' (← literalLinesTail rest)
  | '\n' :: rest => return consTo '\n' (← literalLinesTail rest)
  | c :: rest => if isPlain c then return consTo c (← literalLinesTail rest) else none
  | [] => none

/-- A line end right after the opening quotes is dropped. -/
def dropLineEnd (cs : List Char) : List Char := (lineEnd? cs).getD cs

/-- A string on one line; only these can be keys. -/
def singleLine? : Parser (List Char)
  | '"' :: rest => basicTail rest
  | '\'' :: rest => literalTail rest
  | _ => none

def string? : Parser (List Char)
  | '"' :: '"' :: '"' :: rest => basicLinesTail false (dropLineEnd rest)
  | '\'' :: '\'' :: '\'' :: rest => literalLinesTail (dropLineEnd rest)
  | cs => singleLine? cs

end GridRover.Toml
