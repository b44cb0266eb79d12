/-
The two number types that a calculation can run on.  Integer arithmetic is exact
or fails: no operation wraps around.  Only the integer power goes through
doubles; it is cut off toward zero.
-/
import LineScript.Comparison
import LineScript.DoubleText
import LineScript.IntegerText
import LineScript.Operator

namespace LineScript

/-- A type of numbers with their texts and operations. -/
class Operand (α : Type) where
  /-- The number that a text writes. -/
  read? : String → Option α
  /-- The text of a number. -/
  text : α → String
  /-- The result of an operation. -/
  apply : Operator → α → α → Except CalculationError α
  /-- The truth of a comparison. -/
  holds : Comparison → α → α → Bool

/-- Reads an operand; a text that writes no number is an error. -/
def readOperand (α : Type) [Operand α] (text : String) :
    Except CalculationError α :=
  match Operand.read? text with
  | some value => .ok value
  | none => .error (.invalidOperand text)

/-- The integer of 64 bits with the given value, if there is one. -/
def integerInRange? (value : Int) : Option Int64 :=
  if Int64.minValue.toInt ≤ value ∧ value ≤ Int64.maxValue.toInt then
    some (Int64.ofInt value)
  else
    none

/-- An integer power, computed by a power function on doubles and cut off
toward zero.  The number one above the greatest integer is taken for it. -/
def integerPower? (power : Float → Float → Float) (base exponent : Int64) :
    Option Int64 :=
  match truncateDouble?
      (power (doubleOfInteger base) (doubleOfInteger exponent)) with
  | none => none
  | some whole =>
    let greatest := Int64.maxValue.toInt
    if Int64.minValue.toInt ≤ whole ∧ whole ≤ greatest + 1 then
      some (Int64.ofInt (if whole ≤ greatest then whole else greatest))
    else
      none

/-- The result of an integer operation with a divisor that is not zero, if it
is in range.  A remainder exists when the quotient does. -/
def integerResult? (op : Operator) (left right : Int64) : Option Int64 :=
  match op with
  | .add => integerInRange? (left.toInt + right.toInt)
  | .sub => integerInRange? (left.toInt - right.toInt)
  | .mul => integerInRange? (left.toInt * right.toInt)
  | .div => integerInRange? (left.toInt.tdiv right.toInt)
  | .mod =>
    (integerInRange? (left.toInt.tdiv right.toInt)).map fun _ =>
      Int64.ofInt (left.toInt.tmod right.toInt)
  | .pow => integerPower? Float.pow left right

def applyInteger (op : Operator) (left right : Int64) :
    Except CalculationError Int64 :=
  if (op = .div ∨ op = .mod) ∧ right = 0 then .error .divisionByZero
  else
    match integerResult? op left right with
    | some value => .ok value
    | none => .error (.overflow op.symbol)

def integerHolds (comparison : Comparison) (left right : Int64) : Bool :=
  match comparison with
  | .equal => left = right
  | .unequal => left ≠ right
  | .atLeast => right ≤ left
  | .above => right < left
  | .atMost => left ≤ right
  | .below => left < right

instance : Operand Int64 where
  read? text := (readInteger text).toOption
  text := integerText
  apply := applyInteger
  holds := integerHolds

/-- Double arithmetic has no remainder, and dividing by a zero of either sign
is an error. -/
def applyDouble (op : Operator) (left right : Float) :
    Except CalculationError Float :=
  match op with
  | .add => .ok (left + right)
  | .sub => .ok (left - right)
  | .mul => .ok (left * right)
  | .div => if right == 0.0 then .error .divisionByZero else .ok (left / right)
  | .pow => .ok (Float.pow left right)
  | .mod => .error .moduloOnDouble

def doubleHolds (comparison : Comparison) (left right : Float) : Bool :=
  match comparison with
  | .equal => left == right
  | .unequal => !(left == right)
  | .atLeast => decide (right ≤ left)
  | .above => decide (right < left)
  | .atMost => decide (left ≤ right)
  | .below => decide (left < right)

instance : Operand Float where
  read? := readDouble?
  text := doubleText
  apply := applyDouble
  holds := doubleHolds

end LineScript
