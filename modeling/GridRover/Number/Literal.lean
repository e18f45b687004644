import GridRover.Number.Decimal

/-!
# Numbers from text

Doubles are read for expressions and for values from outside, words for the targets of jumps.
-/
namespace GridRover.Number

/-! ## Reading numbers

`ofDigits` reads the number literals of expressions, digits with an optional
fraction. `ofText` reads the wider notation of values given from outside: a sign,
a bare point at either end, an exponent, and the names of infinity and NaN. -/

def digitValue (c : Char) : Nat := c.toNat - '0'.toNat

/-- The number written by a run of decimal digits. -/
def naturalOf (digits : List Char) : Nat := digits.foldl (fun n c => 10 * n + digitValue c) 0

/-- The double nearest to the digits `whole` with the fraction digits `fraction`. -/
def ofDigits (whole fraction : List Char) : Float :=
  ofSign false (Decimal.nearest ⟨naturalOf (whole ++ fraction), -(fraction.length : Int)⟩)

/-- Why a text is no number. -/
inductive LiteralError
  | empty
  | malformed
  deriving DecidableEq, Repr

def LiteralError.message : LiteralError → String
  | .empty => "cannot parse float from empty string"
  | .malformed => "invalid float literal"

/-- An exponent that keeps the powers of ten computed small. Beyond these bounds a decimal
with so many digits is infinite or zero as a double, whatever its digits are. -/
def boundedExponent (digits : Nat) (exponent : Int) : Int :=
  max (-(digits : Int) - 400) (min exponent 400)

/-- The exponent part of a number: empty, or `e`, an optional sign and digits. -/
def exponentOf? : List Char → Option Int
  | [] => some 0
  | c :: rest =>
    if c = 'e' ∨ c = 'E' then
      let (negative, digits) := match rest with
        | '-' :: ds => (true, ds)
        | '+' :: ds => (false, ds)
        | ds => (false, ds)
      if digits ≠ [] ∧ digits.all Char.isDigit then
        some (if negative then -(naturalOf digits : Int) else naturalOf digits)
      else none
    else none

/-- Magnitude bits of an unsigned number: digits with an optional point, at least one of
them, then the exponent part. -/
def magnitudeOf? (cs : List Char) : Option Nat := do
  let whole := cs.takeWhile Char.isDigit
  let (fraction, rest) := match cs.dropWhile Char.isDigit with
    | '.' :: rest => (rest.takeWhile Char.isDigit, rest.dropWhile Char.isDigit)
    | rest => ([], rest)
  let digits := whole ++ fraction
  if digits = [] then none
  else
    let exponent ← exponentOf? rest
    let adjusted := boundedExponent digits.length (exponent - fraction.length)
    some (Decimal.nearest ⟨naturalOf digits, adjusted⟩)

/-- A word for a number without digits, in any case. -/
def namedMagnitude? (cs : List Char) : Option Float :=
  let word := String.ofList (cs.map Char.toLower)
  if word = "inf" ∨ word = "infinity" then some (ofSign false infinityBits)
  else if word = "nan" then some (0.0 / 0.0)
  else none

/-- The double nearest to a written number. -/
def ofText (s : String) : Except LiteralError Float :=
  match s.toList with
  | [] => .error .empty
  | c :: rest =>
    let (negative, body) := if c = '-' then (true, rest) else if c = '+' then (false, rest) else (false, c :: rest)
    match namedMagnitude? body with
    | some x => .ok (if negative then -x else x)
    | none =>
      match magnitudeOf? body with
      | some bits => .ok (ofSign negative bits)
      | none => .error .malformed

/-! ## Whole numbers as words

A word is an integer of 64 bits with a sign. Arithmetic on words has no result where the
exact one does not fit, and a literal is read digit by digit in this arithmetic. -/

/-- One more than the greatest word; the least word is its negative. -/
def wordLimit : Int := 0x8000000000000000

/-- A number that fits a word. -/
def word? (n : Int) : Option Int :=
  if n < -wordLimit then none else if wordLimit ≤ n then none else some n

/-- A word with one more digit at its end. The digit leads away from zero. -/
def appendDigit? (negative : Bool) (n : Int) (c : Char) : Option Int := do
  let tens ← word? (10 * n)
  word? (if negative then tens - digitValue c else tens + digitValue c)

/-- The word written by a sign and digits. -/
def wordOf? (negative : Bool) (digits : List Char) : Option Int :=
  digits.foldlM (appendDigit? negative) 0

/-- The word that is furthest from zero on the side of a sign. -/
def outermostWord (negative : Bool) : Int := if negative then -wordLimit else wordLimit - 1

/-- The word before a word; the least one has none. -/
def previousWord? (n : Int) : Option Int := if n ≤ -wordLimit then none else some (n - 1)

end GridRover.Number
