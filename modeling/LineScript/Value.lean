/-
The values that variables hold, their kinds and their texts.
-/
import LineScript.DoubleText
import LineScript.IntegerText

namespace LineScript

/-- The kinds of values. -/
inductive Kind
  | bool | int | double | text | array | absent
  deriving DecidableEq, Repr

/-- The name of a kind in messages and reports. -/
def Kind.label : Kind → String
  | bool => "BOOL"
  | int => "INT"
  | double => "DOUBLE"
  | text => "STRING"
  | array => "ARRAY"
  | absent => "NONE"

/-- A value.  Arrays may be nested and hold values of different kinds; the
absent value is what an empty operand stands for. -/
inductive Value
  | bool (value : Bool)
  | int (value : Int64)
  | double (value : Float)
  | text (value : String)
  | array (elements : List Value)
  | absent

instance : Inhabited Value := ⟨.absent⟩

namespace Value

def kind : Value → Kind
  | bool _ => .bool
  | int _ => .int
  | double _ => .double
  | text _ => .text
  | array _ => .array
  | absent => .absent

def isNumeric : Value → Bool
  | int _ | double _ => true
  | _ => false

def isAbsent : Value → Bool
  | absent => true
  | _ => false

def elements? : Value → Option (List Value)
  | array elements => some elements
  | _ => none

/-- A number as a double. -/
def toDouble? : Value → Option Float
  | int value => some (doubleOfInteger value)
  | double value => some value
  | _ => none

mutual

/-- The text of a value.  The elements of an array are separated by single
spaces; the absent value has no text. -/
def render : Value → String
  | bool true => "true"
  | bool false => "false"
  | int value => integerText value
  | double value => doubleText value
  | text value => value
  | array elements => "[" ++ " ".intercalate (renderAll elements) ++ "]"
  | absent => ""

/-- The texts of the elements of an array. -/
def renderAll : List Value → List String
  | [] => []
  | value :: later => render value :: renderAll later

end

mutual

/-- Equality of values.  Doubles are compared as numbers, so a value that holds
a non-number differs from itself. -/
def equal : Value → Value → Bool
  | bool left, bool right => left == right
  | int left, int right => left == right
  | double left, double right => left == right
  | text left, text right => left == right
  | array left, array right => equalAll left right
  | absent, absent => true
  | _, _ => false

/-- Equality of the elements of two arrays. -/
def equalAll : List Value → List Value → Bool
  | [], [] => true
  | left :: lefts, right :: rights => equal left right && equalAll lefts rights
  | _, _ => false

end

instance : BEq Value := ⟨equal⟩

end Value

end LineScript
