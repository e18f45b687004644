/-!
# Text for a terminal and text for none
-/
namespace GridRover.Console

/-! ## Coloured text

Text is set off by escape sequences of the terminal, or left alone where colour is off. -/

inductive Style
  | bold
  | red
  | redBold
  | blueBold
  deriving DecidableEq, Repr

def Style.codes : Style → String
  | .bold => "1"
  | .red => "31"
  | .redBold => "1;31"
  | .blueBold => "1;34"

/-- Whether text is coloured, from the variables `CLICOLOR_FORCE`, `NO_COLOR` and `CLICOLOR` of
the environment and whether a person reads the output. -/
def wantsColor (force never auto : Option String) (isTerminal : Bool) : Bool :=
  if force.any (· != "0") then true
  else if never.isSome then false
  else isTerminal && auto.all (· != "0")

/-- The text in a style; empty text is set off too. -/
def paint (color : Bool) (style : Style) (text : String) : String :=
  if color then "\x1b[" ++ style.codes ++ "m" ++ text ++ "\x1b[0m" else text

/-! ## Text for a place that is no terminal

Escape sequences are left out of a text, and so are all control characters but white
space. A sequence that is not ended takes in what follows it. -/

/-- An escape sequence that has begun and not ended. -/
inductive Sequence
  /-- The escape character alone. -/
  | escape
  /-- Marks, before the character that ends them. -/
  | designation
  /-- A control with its arguments. -/
  | control
  | deviceStart
  | deviceArguments
  | deviceMarks
  /-- The text for a device. -/
  | string
  /-- The text for the frame of a window. -/
  | title
  deriving DecidableEq, Repr

def isMark (c : Char) : Bool := ' ' ≤ c && c ≤ '/'

def isArgument (c : Char) : Bool := '0' ≤ c && c ≤ '?'

/-- An argument that is a digit or stands between numbers. -/
def isNumeral (c : Char) : Bool := '0' ≤ c && c ≤ ';'

def isFinal (c : Char) : Bool := '@' ≤ c && c ≤ '~'

/-- The string terminator is the byte 9C, also inside the encoding of a character. -/
def endsString (c : Char) : Bool := (String.singleton c).toUTF8.data.contains 0x9C

namespace Sequence

/-- What is left open after one more character. -/
def next? : Sequence → Char → Option Sequence
  | .escape, c =>
    if isMark c then some .designation
    else if c = '[' then some .control
    else if c = ']' then some .title
    else if c = 'P' then some .deviceStart
    else if c = 'X' || c = '^' || c = '_' then some .string
    else if isArgument c || isFinal c then none
    else some .escape
  | .designation, c => if isArgument c || isFinal c then none else some .designation
  | .control, c => if isFinal c then none else some .control
  | .deviceStart, c =>
    if isMark c then some .deviceMarks
    else if isArgument c then some .deviceArguments
    else if isFinal c then some .string
    else some .deviceStart
  | .deviceArguments, c =>
    if isMark c then some .deviceMarks
    else if isNumeral c then some .deviceArguments
    else if isArgument c || isFinal c then some .string
    else some .deviceArguments
  | .deviceMarks, c => if isArgument c || isFinal c then some .string else some .deviceMarks
  | .string, c => if endsString c then none else some .string
  | .title, c => if c = '\x07' then none else some .title

/-- White space inside the sequence is shown. -/
def showsSpace : Sequence → Bool
  | .escape | .designation | .control => true
  | _ => false

end Sequence

/-- White space among the control characters. -/
def isSpace (c : Char) : Bool := c = '\t' || c = '\n' || c = '\x0c' || c = '\r'

/-- A character that is shown outside of sequences. -/
def isShown (c : Char) : Bool := (' ' ≤ c && c != '\x7f') || isSpace c

/-- Where in a text its reader stands. White space interrupts a sequence until the next
control character; a character beyond ASCII ends an interrupted one. -/
inductive Phase
  | shown (interrupted : Option Sequence)
  | hidden (current : Sequence)
  deriving DecidableEq, Repr

namespace Phase

/-- The phase after a character that is not shown. -/
def pass (s : Option Sequence) (c : Char) : Phase :=
  if c = '\x1b' then .hidden .escape
  else if c = '\x18' || c = '\x1a' then .shown none
  else
    match s.bind (·.next? c) with
    | some s => .hidden s
    | none => .shown none

/-- The phase after a character, and whether the character is shown. -/
def step : Phase → Char → Phase × Bool
  | .shown s, c =>
    if isShown c then (.shown (if c ≤ '\x7f' then s else none), true) else (pass s c, false)
  | .hidden s, c =>
    if isSpace c && s.showsSpace then (.shown (some s), true) else (pass (some s) c, false)

/-- The characters that are shown from a phase on. -/
def plain (p : Phase) : List Char → List Char
  | [] => []
  | c :: cs =>
    match p.step c with
    | (next, true) => c :: next.plain cs
    | (next, false) => next.plain cs

end Phase

/-- The part of a text that is shown where there is no terminal. -/
def plain (text : String) : String := String.ofList ((Phase.shown none).plain text.toList)

end GridRover.Console
