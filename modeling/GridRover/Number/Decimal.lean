import GridRover.Number.Binary

/-!
# Decimal numbers

Decimals stand between doubles and their text, in both directions.
-/
namespace GridRover.Number

/-! ## Decimal numbers and the doubles nearest to them

`exact` and `nearest` go between doubles and decimals: every finite double is a
decimal, and every decimal has a nearest double. -/

/-- The number `coefficient * 10 ^ exponent`. -/
structure Decimal where
  coefficient : Nat
  exponent : Int
  deriving DecidableEq, Repr

namespace Decimal

/-- Magnitude bits of the double nearest to a decimal; ties go to the even significand. -/
def nearest (d : Decimal) : Nat :=
  if d.coefficient = 0 then 0
  else match d.exponent with
    | .ofNat e => nearestBits (d.coefficient * Nat.pow 10 e) 1
    | .negSucc e => nearestBits d.coefficient (Nat.pow 10 (e + 1))

/-- The exact decimal value of finite magnitude bits. Of the 1074 halvings of a unit those
that the scale does not undo are as many decimal places. -/
def exact (bits : Nat) : Decimal :=
  let m := Magnitude.ofBits bits
  ⟨m.significand * Nat.pow 2 (m.scale - 1074) * Nat.pow 5 (1074 - m.scale),
    -((1074 - m.scale : Nat) : Int)⟩

/-- The digits of the coefficient, most significant first. -/
def digits (d : Decimal) : List Char := Nat.toDigits 10 d.coefficient

/-- Drops the last `k` digits. -/
def cut (k : Nat) (d : Decimal) : Decimal := ⟨d.coefficient / Nat.pow 10 k, d.exponent + k⟩

/-- The next decimal with the same exponent. -/
def next (d : Decimal) : Decimal := { d with coefficient := d.coefficient + 1 }

/-- How far a decimal lies from another of no larger exponent, in the other's last place. -/
def distance (d fine : Decimal) : Nat :=
  let scaled := d.coefficient * Nat.pow 10 (d.exponent - fine.exponent).toNat
  (scaled - fine.coefficient) + (fine.coefficient - scaled)

/-- The same number with the trailing zeros of the coefficient moved into the exponent. -/
def stripZeros (d : Decimal) : Decimal :=
  if d.coefficient ≠ 0 ∧ d.coefficient % 10 = 0 then
    stripZeros ⟨d.coefficient / 10, d.exponent + 1⟩
  else d
termination_by d.coefficient
decreasing_by omega

end Decimal

/-! ## The fewest digits that read back

On the grid of `n`-digit decimals the two neighbours of a double are candidates.
The first grid with a candidate that reads back to the same double gives its
decimal; of two candidates the nearer is taken, and the upper one on a tie. -/

/-- The neighbour of `value` on the grid without its last `k` digits that reads back to `bits`. -/
def candidate? (bits : Nat) (value : Decimal) (k : Nat) : Option Decimal :=
  let below := value.cut k
  let above := below.next
  if above.nearest = bits ∧
      (below.nearest ≠ bits ∨ above.distance value ≤ below.distance value) then some above
  else if below.nearest = bits then some below
  else none

/-- The shortest decimal that reads back to finite magnitude bits. Seventeen digits
suffice for every double; the exact value stands behind them. -/
def shortest (bits : Nat) : Decimal :=
  if bits = 0 then ⟨0, 0⟩
  else
    let value := Decimal.exact bits
    let count := value.digits.length
    let found := (List.range 17).findSome? fun n => candidate? bits value (count - (n + 1))
    (found.getD value).stripZeros

end GridRover.Number
