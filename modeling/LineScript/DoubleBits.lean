/-
Doubles taken apart into sign, mantissa and binary exponent.  Everything that
is said exactly about a double is said about these parts.
-/
namespace LineScript

/-- What a double stands for: a signed number `mantissa * 2 ^ exponent`, an
infinity, or no number. -/
inductive DoubleParts
  | finite (negative : Bool) (mantissa : Nat) (exponent : Int)
  | infinite (negative : Bool)
  | notANumber
  deriving DecidableEq, Repr

/-- The exponent of the doubles of least magnitude. -/
def leastExponent : Int := -1074

/-- The weight `2 ^ 52` of the leading mantissa bit, which is not stored. -/
def leadingBit : Nat := 0x10000000000000

/-- The weight `2 ^ 63` of the sign bit. -/
def signBit : Nat := 0x8000000000000000

/-- The exponent field of infinities and non-numbers. -/
def specialField : Nat := 2047

/-- The parts of a double, read off its bits. -/
def doubleParts (value : Float) : DoubleParts :=
  let bits := value.toBits.toNat
  let negative : Bool := signBit ≤ bits
  let field := bits / leadingBit % (specialField + 1)
  let fraction := bits % leadingBit
  if field = specialField then
    if fraction = 0 then .infinite negative else .notANumber
  else if field = 0 then
    .finite negative fraction leastExponent
  else
    .finite negative (leadingBit + fraction)
      (leastExponent + (field - 1 : Nat))

/-- The whole part of `mantissa * 2 ^ exponent`. -/
def wholePart (mantissa : Nat) (exponent : Int) : Nat :=
  if 0 ≤ exponent then mantissa <<< exponent.toNat
  else mantissa >>> (-exponent).toNat

/-- A double cut off toward zero.  Infinities and non-numbers have no such
integer. -/
def truncateDouble? (value : Float) : Option Int :=
  match doubleParts value with
  | .finite false mantissa exponent => some (wholePart mantissa exponent)
  | .finite true mantissa exponent => some (-(wholePart mantissa exponent))
  | .infinite _ | .notANumber => none

/-- The double nearest to an integer. -/
def doubleOfInteger (value : Int64) : Float :=
  Float.ofInt value.toInt

end LineScript
