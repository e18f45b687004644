/-!
# Binary64 magnitudes as integers

A finite magnitude is `significand * 2 ^ scale` in units of `2 ^ (-1074)`, the
least positive double. Packing is `scale * 2 ^ 52 + significand`: a carry out of
the significand moves into the scale, so rounding needs no case of its own.
-/
namespace GridRover.Number

/-- Magnitude bits of infinity; every finite magnitude lies below. -/
def infinityBits : Nat := 0x7FF0000000000000

/-- The sign bit. -/
def signBit : Nat := 0x8000000000000000

/-- The leading bit of a significand that is not subnormal. -/
def leadingBit : Nat := 0x10000000000000

/-- The number `significand * 2 ^ scale` in units of `2 ^ (-1074)`. -/
structure Magnitude where
  significand : Nat
  scale : Nat
  deriving DecidableEq, Repr

namespace Magnitude

/-- Magnitude bits below `infinityBits` stand for exactly one magnitude. -/
def ofBits (bits : Nat) : Magnitude :=
  if bits < leadingBit then ⟨bits, 0⟩
  else ⟨bits % leadingBit + leadingBit, bits / leadingBit - 1⟩

def toBits (m : Magnitude) : Nat := m.scale * leadingBit + m.significand

/-- The value in units of `2 ^ (-1074)`. -/
def units (m : Magnitude) : Nat := m.significand * Nat.pow 2 m.scale

theorem toBits_ofBits (bits : Nat) : (ofBits bits).toBits = bits := by
  unfold ofBits toBits leadingBit
  split <;> simp only <;> omega

end Magnitude

/-- The quotient rounded to the nearest integer, a half going to the even neighbour. -/
def roundDiv (n d : Nat) : Nat :=
  let q := n / d
  let r := n % d
  if d < 2 * r ∨ (2 * r = d ∧ q % 2 = 1) then q + 1 else q

/-- The magnitude nearest to the positive fraction `n / d`, its bits capped at infinity.
The scale keeps 53 significant bits, or fewer when the value is subnormal. -/
def nearestBits (n d : Nat) : Nat :=
  let units := n * Nat.pow 2 1074
  let scale := (units / d).log2 - 52
  min (Magnitude.toBits ⟨roundDiv units (d * Nat.pow 2 scale), scale⟩) infinityBits

/-- A double from its sign and magnitude bits. -/
def ofSign (negative : Bool) (bits : Nat) : Float :=
  Float.ofBits (UInt64.ofNat (if negative then signBit + bits else bits))

def isNegative (x : Float) : Bool := signBit ≤ x.toBits.toNat

def magnitudeBits (x : Float) : Nat := x.toBits.toNat % signBit

/-- Truncation toward zero clears the bits below the units place. A value whose units
place is below its last bit is whole already, as are infinities; a magnitude below one
becomes a zero of the same sign. -/
def truncateBits (bits : Nat) : Nat :=
  let field := bits / leadingBit
  if 1075 ≤ field then bits
  else if field < 1023 then 0
  else bits - bits % Nat.pow 2 (1075 - field)

def truncate (x : Float) : Float :=
  if x.isNaN then x else ofSign (isNegative x) (truncateBits (magnitudeBits x))

end GridRover.Number
