import GridRover.Number.Decimal

/-!
# Number text

Two layouts write the same digits: `plain` is what results and messages show,
`marked` keeps a fraction on whole numbers and leaves the positional notation for
very large and very small ones.
-/
namespace GridRover.Number

/-- How digits are laid out. -/
structure Layout where
  /-- A whole number ends in `.0`. -/
  keepsFraction : Bool
  /-- Powers of ten of the leading digit that are written positionally, the second
  one excluded. Without bounds every number is. -/
  positional : Option (Int × Int)

/-- Never an exponent, and no fraction on whole numbers. -/
def Layout.plain : Layout := ⟨false, none⟩

/-- A fraction on whole numbers, and an exponent below `10 ^ (-4)` and from `10 ^ 16` on. -/
def Layout.marked : Layout := ⟨true, some (-4, 16)⟩

namespace Decimal

/-- The power of ten of the leading digit. -/
def leading (d : Decimal) : Int := d.exponent + (d.digits.length : Int) - 1

/-- Positional notation: the digits with their point, zeros filled in where needed. -/
def positional (d : Decimal) (keepsFraction : Bool) : List Char :=
  match d.exponent with
  | .ofNat e =>
    d.digits ++ List.replicate e '0' ++ (if keepsFraction then ['.', '0'] else [])
  | .negSucc e =>
    let places := e + 1
    let padded := List.replicate (places + 1 - d.digits.length) '0' ++ d.digits
    padded.take (padded.length - places) ++ '.' :: padded.drop (padded.length - places)

/-- One digit before the point, then the power of ten. -/
def scientific (d : Decimal) : List Char :=
  let fraction := d.digits.drop 1
  d.digits.take 1 ++ (if fraction.isEmpty then [] else '.' :: fraction) ++
    'e' :: (toString d.leading).toList

def layOut (layout : Layout) (d : Decimal) : List Char :=
  match layout.positional with
  | none => d.positional layout.keepsFraction
  | some (low, high) =>
    if d.coefficient = 0 ∨ (low ≤ d.leading ∧ d.leading < high) then
      d.positional layout.keepsFraction
    else d.scientific

end Decimal

/-- The text of a number under a layout. A zero keeps its sign, the sign of a NaN is not shown. -/
def render (layout : Layout) (x : Float) : String :=
  if x.isNaN then "NaN"
  else
    let bits := magnitudeBits x
    let digits := if bits = infinityBits then "inf" else String.ofList ((shortest bits).layOut layout)
    if isNegative x then "-" ++ digits else digits

/-- The text of a number in results and messages. -/
def text (x : Float) : String := render .plain x

/-- The text of a number inside the written form of a structure. -/
def markedText (x : Float) : String := render .marked x

end GridRover.Number
