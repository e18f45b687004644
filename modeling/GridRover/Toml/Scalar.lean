import GridRover.Number.Literal
import GridRover.Toml.Text
import GridRover.Toml.Table

/-!
# Numbers, booleans, dates and times

These values are runs of letters, digits and `+-_.:`, and the whole run has to be one of
them. Only a date and a time divided by a space take two runs.
-/
namespace GridRover.Toml

def isScalarChar (c : Char) : Bool :=
  c.isAlphanum || c = '+' || c = '-' || c = '_' || c = '.' || c = ':'

/-- Digits of a class, single underscores between them, without the underscores. -/
def grouped? (isDigit : Char → Bool) : List Char → Option (List Char)
  | [] => none
  | c :: cs =>
    if isDigit c then
      match cs with
      | [] => some [c]
      | '_' :: rest => (grouped? isDigit rest).map (c :: ·)
      | rest => (grouped? isDigit rest).map (c :: ·)
    else none

/-- A sign and the text after it. -/
def splitSign : List Char → Bool × List Char
  | '-' :: cs => (true, cs)
  | '+' :: cs => (false, cs)
  | cs => (false, cs)

/-- Decimal digits that start with a zero only if they are that zero alone. -/
def wholeDigits? (cs : List Char) : Option (List Char) := do
  let digits ← grouped? Char.isDigit cs
  if cs.head? = some '0' && cs.length != 1 then none else some digits

/-- Integers are words of 64 bits. -/
def bounded? (n : Int) : Option Value :=
  if -Int.pow 2 63 ≤ n ∧ n < Int.pow 2 63 then some (.integer n) else none

def naturalIn (base : Nat) (digits : List Char) : Nat :=
  digits.foldl (fun n c =>
    base * n + (if c.isDigit then c.toNat - '0'.toNat else c.toLower.toNat - 'a'.toNat + 10)) 0

def isHexDigit (c : Char) : Bool :=
  c.isDigit || ('a' ≤ c && c ≤ 'f') || ('A' ≤ c && c ≤ 'F')

/-- Integers in bases other than ten have no sign. -/
def integer? : List Char → Option Value
  | '0' :: 'x' :: cs => do bounded? (naturalIn 16 (← grouped? isHexDigit cs))
  | '0' :: 'o' :: cs => do bounded? (naturalIn 8 (← grouped? (fun c => '0' ≤ c && c ≤ '7') cs))
  | '0' :: 'b' :: cs => do bounded? (naturalIn 2 (← grouped? (fun c => c = '0' || c = '1') cs))
  | cs => do
    let (negative, rest) := splitSign cs
    let n : Int := Number.naturalOf (← wholeDigits? rest)
    bounded? (if negative then -n else n)

def isExponentMark (c : Char) : Bool := c = 'e' || c = 'E'

/-- The exponent of a float: digits after an optional sign, zeros in front allowed. -/
def exponent? (cs : List Char) : Option Int := do
  let (negative, rest) := splitSign cs
  let n : Int := Number.naturalOf (← grouped? Char.isDigit rest)
  return if negative then -n else n

/-- A fraction or an exponent makes a number a float. A float too large above is refused. -/
def float? (cs : List Char) : Option Value := do
  let (negative, rest) := splitSign cs
  if rest = ['i', 'n', 'f'] then return .float (Number.ofSign negative Number.infinityBits)
  if rest = ['n', 'a', 'n'] then return .float (0.0 / 0.0)
  let mantissa := rest.takeWhile (!isExponentMark ·)
  let whole ← wholeDigits? (mantissa.takeWhile (· != '.'))
  let fraction ← match mantissa.dropWhile (· != '.') with
    | [] => some []
    | _ :: digits => grouped? Char.isDigit digits
  let exponent ← match rest.dropWhile (!isExponentMark ·) with
    | [] => if fraction = [] then none else some 0
    | _ :: digits => exponent? digits
  let digits := whole ++ fraction
  let adjusted := Number.boundedExponent digits.length (exponent - fraction.length)
  let bits := Number.Decimal.nearest ⟨Number.naturalOf digits, adjusted⟩
  if bits = Number.infinityBits && !negative then none
  return .float (Number.ofSign negative bits)

/-- A number of two digits within bounds. -/
def twoDigits? (low high : Nat) (a b : Char) : Option Nat :=
  if a.isDigit && b.isDigit then
    let n := Number.naturalOf [a, b]
    if low ≤ n ∧ n ≤ high then some n else none
  else none

def isLeap (year : Nat) : Bool := year % 4 = 0 && (year % 100 != 0 || year % 400 = 0)

def monthLength (year month : Nat) : Nat :=
  if month = 2 then (if isLeap year then 29 else 28)
  else if month = 4 ∨ month = 6 ∨ month = 9 ∨ month = 11 then 30
  else 31

/-- The text after a date. -/
def date? : List Char → Option (List Char)
  | a :: b :: c :: d :: '-' :: e :: f :: '-' :: g :: h :: rest => do
    if !([a, b, c, d].all Char.isDigit) then none
    let month ← twoDigits? 1 12 e f
    let _ ← twoDigits? 1 (monthLength (Number.naturalOf [a, b, c, d]) month) g h
    return rest
  | _ => none

/-- The text after a time of day with its optional fraction of a second. -/
def time? : List Char → Option (List Char)
  | a :: b :: ':' :: c :: d :: ':' :: e :: f :: rest => do
    let _ ← twoDigits? 0 23 a b
    let _ ← twoDigits? 0 59 c d
    let _ ← twoDigits? 0 60 e f
    match rest with
    | '.' :: digits => if digits.head?.any Char.isDigit then return digits.dropWhile Char.isDigit else none
    | _ => return rest
  | _ => none

/-- A complete offset from universal time, or none at all. -/
def isOffset : List Char → Bool
  | [] => true
  | ['Z'] | ['z'] => true
  | [sign, a, b, ':', c, d] =>
    (sign = '+' || sign = '-') && (twoDigits? 0 23 a b).isSome && (twoDigits? 0 59 c d).isSome
  | _ => false

/-- A time of day with an optional offset, nothing after it. -/
def isOffsetTime (cs : List Char) : Bool := (time? cs).any isOffset

def isMoment (cs : List Char) : Bool :=
  match date? cs with
  | some [] => true
  | some (c :: rest) => (c = 'T' || c = 't') && isOffsetTime rest
  | none => time? cs = some []

/-- The value that a run is. -/
def ofRun? (run : List Char) : Option Value :=
  if run = ['t', 'r', 'u', 'e'] then some (.boolean true)
  else if run = ['f', 'a', 'l', 's', 'e'] then some (.boolean false)
  else if isMoment run then some (.moment (String.ofList run))
  else (float? run).orElse fun _ => integer? run

def scalar? : Parser Value := fun cs => do
  let run := cs.takeWhile isScalarChar
  let rest := cs.dropWhile isScalarChar
  let time := rest.drop 1 |>.takeWhile isScalarChar
  if date? run = some [] && rest.head? = some ' ' && isOffsetTime time then
    return (.moment (String.ofList (run ++ ' ' :: time)), rest.drop (time.length + 1))
  return (← ofRun? run, rest)

end GridRover.Toml
