/-
Literals: tokens that stand for values by their text alone.
-/
import LineScript.Value
import LineScript.Vocabulary

namespace LineScript

/-- The delimiter of text literals. -/
def quoteMark : Char := '\x27'

/-- Drops a quote mark in front of a text. -/
def dropQuote : List Char → List Char
  | [] => []
  | c :: later => if c = quoteMark then later else c :: later

/-- Drops the quote marks around a token, each end on its own. -/
def stripQuotes (token : String) : String :=
  String.ofList (dropQuote (dropQuote token.toList).reverse).reverse

/-- Numbers are written with ASCII letters, digits and points; letters never
make a number, but other characters make a text without further look. -/
def isLiteralChar (c : Char) : Bool :=
  c.isAlphanum || c == '.'

/-- Drops a minus sign in front of a text. -/
def dropMinus : List Char → List Char
  | '-' :: rest => rest
  | text => text

/-- The kind of an unsigned number text.  A fraction of zeros alone makes an
integer. -/
def numberKind (unsigned : List Char) : Kind :=
  match cutAt (· == '.') unsigned with
  | (whole, none) => if whole.all Char.isDigit then .int else .text
  | (whole, some fraction) =>
    if (whole ++ fraction).isEmpty || !(whole ++ fraction).all Char.isDigit then
      .text
    else if fraction.all (· == '0') then .int
    else .double

/-- The kind of the value that a token stands for. -/
def inferKind (token : String) : Kind :=
  if token = Word.truth ∨ token = Word.falsity then .bool
  else if token = "" then .absent
  else
    let unsigned := dropMinus token.toList
    if token.toList.head? = some quoteMark ∨ unsigned.isEmpty ∨
        !unsigned.all isLiteralChar then
      .text
    else
      numberKind unsigned

/-- The double that a token writes; a token that writes none is kept as
text. -/
def Value.ofDoubleLiteral (token : String) : Value :=
  match readDouble? token with
  | some value => .double value
  | none => .text token

/-- The value that a token stands for.  An integer out of range becomes a
double. -/
def Value.ofLiteral (token : String) : Value :=
  match inferKind token with
  | .bool => .bool (token = Word.truth)
  | .int =>
    match readInteger (String.ofList (cutAt (· == '.') token.toList).1) with
    | .ok value => .int value
    | .error _ => .ofDoubleLiteral token
  | .double => .ofDoubleLiteral token
  | .text => .text (stripQuotes token)
  | .array | .absent => .absent

theorem ofDoubleLiteral_ne_array (token : String) (elements : List Value) :
    Value.ofDoubleLiteral token ≠ .array elements := by
  unfold Value.ofDoubleLiteral
  split <;> nofun

/-- No literal writes an array. -/
theorem ofLiteral_ne_array (token : String) (elements : List Value) :
    Value.ofLiteral token ≠ .array elements := by
  have hdouble := ofDoubleLiteral_ne_array token elements
  unfold Value.ofLiteral
  split
  · nofun
  · split
    · nofun
    · exact hdouble
  · exact hdouble
  · nofun
  · nofun
  · nofun

end LineScript
