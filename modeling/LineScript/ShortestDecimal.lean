/-
The shortest decimal of a positive binary number.  A double owns the interval of
reals that round to it; among the decimals in that interval the one with the
fewest digits is taken, the nearer one of two, and the larger one of two equally
near.  The search tests the two neighbours of the value on each decimal grid, in
exact arithmetic, from one digit to seventeen.
-/
import LineScript.DoubleBits

namespace LineScript

/-- The decimal number `digits * 10 ^ exponent`. -/
structure Decimal where
  digits : Nat
  exponent : Int
  deriving DecidableEq, Repr

/-- The reals that round to a double, in quarters of its last binary place:
from `low` to `high` around the double itself at `4 * mantissa`. -/
structure RoundingInterval where
  low : Nat
  high : Nat
  closed : Bool
  deriving DecidableEq, Repr

/-- The interval of a double.  The gap below a power of two is half as wide,
and the ends belong to the interval when the mantissa is even. -/
def roundingInterval (mantissa : Nat) (exponent : Int) : RoundingInterval where
  low :=
    if mantissa = leadingBit ∧ leastExponent < exponent then
      4 * mantissa - 1
    else
      4 * mantissa - 2
  high := 4 * mantissa + 2
  closed := mantissa % 2 = 0

/-- A quarter of the last binary place of a double and one step of a decimal
grid, both in one common unit. -/
structure GridScale where
  quarter : Nat
  step : Nat
  deriving DecidableEq, Repr

/-- The scale between a quarter of `2 ^ exponent` and `10 ^ place`. -/
def gridScale (exponent place : Int) : GridScale where
  quarter := Nat.pow 10 (-place).toNat <<< (exponent - 2).toNat
  step := Nat.pow 10 place.toNat <<< (2 - exponent).toNat

/-- The grid point lies in the rounding interval. -/
def RoundingInterval.covers (interval : RoundingInterval) (scale : GridScale)
    (point : Nat) : Bool :=
  let low := interval.low * scale.quarter
  let high := interval.high * scale.quarter
  let here := point * scale.step
  if interval.closed then low ≤ here && here ≤ high
  else low < here && here < high

/-- The grid point that stands for the double on the grid of `10 ^ place`: one
of the two neighbours of the value. -/
def gridPoint? (mantissa : Nat) (exponent place : Int) : Option Decimal :=
  let interval := roundingInterval mantissa exponent
  let scale := gridScale exponent place
  let value := 4 * mantissa * scale.quarter
  let below := value / scale.step
  let above := below + 1
  let nearAbove := above * scale.step - value ≤ value - below * scale.step
  match interval.covers scale below, interval.covers scale above with
  | true, true => some ⟨if nearAbove then above else below, place⟩
  | true, false => some ⟨below, place⟩
  | false, true => some ⟨above, place⟩
  | false, false => none

/-- The decimal place in front of the first digit of a positive number
`mantissa * 2 ^ exponent`, so that the number is below `10 ^ place` and not below
`10 ^ (place - 1)`.  The digits are counted after moving the point far enough for
the number to have a whole part, where one decimal place makes up for three
binary ones. -/
def leadingPlace (mantissa : Nat) (exponent : Int) : Int :=
  let moved := (-exponent).toNat / 3 + 1
  let scaled := wholePart (mantissa * Nat.pow 10 moved) exponent
  (Nat.toDigits 10 scaled).length - moved

/-- The exact decimal of `mantissa * 2 ^ exponent`. -/
def exactDecimal (mantissa : Nat) (exponent : Int) : Decimal :=
  if 0 ≤ exponent then ⟨mantissa <<< exponent.toNat, 0⟩
  else ⟨mantissa * Nat.pow 5 (-exponent).toNat, exponent⟩

/-- Seventeen decimal digits tell all doubles apart. -/
def enoughDigits : Nat := 17

/-- The decimal with the fewest digits that rounds to the double. -/
def shortestDecimal (mantissa : Nat) (exponent : Int) : Decimal :=
  let place := leadingPlace mantissa exponent
  let found := (List.range enoughDigits).findSome? fun (count : Nat) =>
    gridPoint? mantissa exponent (place - count - 1)
  found.getD (exactDecimal mantissa exponent)

end LineScript
