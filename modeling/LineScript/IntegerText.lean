/-
Signed 64-bit integers as decimal text.  Reading takes an optional sign and
decimal digits; it goes from left to right and stops at the first character
that is no digit or that carries the value out of range.
-/
namespace LineScript

/-- Why a text is not an integer of 64 bits. -/
inductive IntegerFault
  | empty
  | invalidDigit
  | tooLarge
  | tooSmall
  deriving DecidableEq, Repr

def IntegerFault.message : IntegerFault → String
  | empty => "cannot parse integer from empty string"
  | invalidDigit => "invalid digit found in string"
  | tooLarge => "number too large to fit in target type"
  | tooSmall => "number too small to fit in target type"

/-- The magnitude `2 ^ 63` of the least integer of 64 bits, one above the
greatest one. -/
def integerBound : Nat := 9223372036854775808

/-- Reads decimal digits behind an already read value.  No value on the way
may exceed the limit. -/
def readDigits (limit : Nat) (overflow : IntegerFault) (value : Nat) :
    List Char → Except IntegerFault Nat
  | [] => .ok value
  | c :: later =>
    if c.isDigit then
      let next := 10 * value + (c.toNat - '0'.toNat)
      if next ≤ limit then readDigits limit overflow next later
      else .error overflow
    else
      .error .invalidDigit

/-- Reads the digits of a magnitude; there is at least one. -/
def readMagnitude (limit : Nat) (overflow : IntegerFault)
    (digits : List Char) : Except IntegerFault Nat :=
  if digits.isEmpty then .error .invalidDigit
  else readDigits limit overflow 0 digits

/-- Reads an integer: an optional sign, then decimal digits. -/
def readInteger (text : String) : Except IntegerFault Int64 :=
  match text.toList with
  | [] => .error .empty
  | '-' :: digits => do
    let magnitude ← readMagnitude integerBound .tooSmall digits
    return Int64.ofInt (-magnitude)
  | '+' :: digits => do
    let magnitude ← readMagnitude (integerBound - 1) .tooLarge digits
    return Int64.ofInt magnitude
  | digits => do
    let magnitude ← readMagnitude (integerBound - 1) .tooLarge digits
    return Int64.ofInt magnitude

/-- The decimal text of an integer. -/
def integerText (value : Int64) : String :=
  toString value.toInt

end LineScript
