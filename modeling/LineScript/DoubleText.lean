/-
Doubles as text.  A double is written with the fewest digits that read back,
always positionally, and without a fraction when it is whole.  Reading takes an
optional sign and either a name of a special value or a decimal with an optional
exponent; the result is rounded once, to the nearest double.
-/
import LineScript.ShortestDecimal
import LineScript.Words

namespace LineScript

/-- Drops the zeros at the end of a digit text. -/
def dropTrailingZeros (digits : List Char) : List Char :=
  (digits.reverse.dropWhile (· == '0')).reverse

/-- The positional text of a decimal.  A fraction that is zero is left out,
together with the point. -/
def Decimal.positional (decimal : Decimal) : List Char :=
  let digits := Nat.toDigits 10 decimal.digits
  if 0 ≤ decimal.exponent then
    digits ++ List.replicate decimal.exponent.toNat '0'
  else
    let places := (-decimal.exponent).toNat
    let padded := List.replicate (places + 1 - digits.length) '0' ++ digits
    let whole := padded.take (padded.length - places)
    let fraction := dropTrailingZeros (padded.drop (padded.length - places))
    if fraction.isEmpty then whole else whole ++ '.' :: fraction

/-- Puts a minus sign in front of a text. -/
def withSign (negative : Bool) (text : List Char) : List Char :=
  if negative then '-' :: text else text

/-- The text of a double.  Zero keeps its sign; a non-number has none. -/
def doubleText (value : Float) : String :=
  String.ofList <|
    match doubleParts value with
    | .notANumber => ['N', 'a', 'N']
    | .infinite negative => withSign negative ['i', 'n', 'f']
    | .finite negative mantissa exponent =>
      withSign negative <|
        if mantissa = 0 then ['0']
        else (shortestDecimal mantissa exponent).positional

def positiveInfinity : Float := Float.ofBits 0x7FF0000000000000

def quietNaN : Float := Float.ofBits 0x7FF8000000000000

/-- The double nearest to a decimal.  Decimals far beyond the range of doubles
are settled by their size alone. -/
def Decimal.toDouble (decimal : Decimal) : Float :=
  let magnitude := (Nat.toDigits 10 decimal.digits).length + decimal.exponent
  if decimal.digits = 0 ∨ magnitude < -400 then 0.0
  else if 400 < magnitude then positiveInfinity
  else
    Float.ofScientific decimal.digits (decimal.exponent < 0)
      decimal.exponent.natAbs

/-- Splits an optional sign off a text; the sign of the minus is kept. -/
def splitSign : List Char → Bool × List Char
  | '-' :: rest => (true, rest)
  | '+' :: rest => (false, rest)
  | text => (false, text)

/-- The number that decimal digits stand for. -/
def digitsValue (digits : List Char) : Nat :=
  Nat.ofDigitChars 10 digits 0

/-- Reads a decimal exponent: an optional sign and at least one digit. -/
def readExponent? (text : List Char) : Option Int :=
  match splitSign text with
  | (negative, digits) =>
    if digits.isEmpty || !digits.all Char.isDigit then none
    else if negative then some (-(digitsValue digits : Int))
    else some (digitsValue digits)

/-- Reads an unsigned decimal: digits with an optional point and at least one
digit on one side of it, then an optional exponent. -/
def readDecimal? (text : List Char) : Option Decimal := do
  let (mantissa, exponentText) := cutAt (fun c => c == 'e' || c == 'E') text
  let (whole, fractionText) := cutAt (· == '.') mantissa
  let fraction := fractionText.getD []
  let digits := whole ++ fraction
  if digits.isEmpty || !digits.all Char.isDigit then none
  else do
    let exponent ←
      match exponentText with
      | none => some 0
      | some behind => readExponent? behind
    return ⟨digitsValue digits, exponent - fraction.length⟩

/-- Reads an unsigned double; the names of the special values are read in any
case. -/
def readUnsignedDouble? (text : List Char) : Option Float :=
  let name := String.ofList (text.map Char.toLower)
  if name = "inf" ∨ name = "infinity" then some positiveInfinity
  else if name = "nan" then some quietNaN
  else (readDecimal? text).map Decimal.toDouble

/-- Reads a double. -/
def readDouble? (text : String) : Option Float :=
  match splitSign text.toList with
  | (negative, magnitude) =>
    (readUnsignedDouble? magnitude).map fun value =>
      if negative then -value else value

end LineScript
