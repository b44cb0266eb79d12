/-
Calculating with texts.  A postfix form is evaluated on a stack of operand
texts: operands are read as numbers when an operator takes them, and the last
remaining text is read at the end.
-/
import LineScript.Operand
import LineScript.PostfixForm
import LineScript.Vocabulary

namespace LineScript

/-- One step of a postfix evaluation: an operator takes two texts off the stack
and puts the text of its result there; any other token is put there itself. -/
def postfixStep (α : Type) [Operand α] (stack : List String)
    (token : String) : Except CalculationError (List String) :=
  match Operator.ofToken? token with
  | none => .ok (token :: stack)
  | some op =>
    match stack with
    | right :: left :: rest => do
      let leftValue ← readOperand α left
      let rightValue ← readOperand α right
      let result ← Operand.apply op leftValue rightValue
      return Operand.text result :: rest
    | _ => .error .missingOperand

/-- Evaluates a postfix text.  Exactly one operand must remain. -/
def evaluatePostfix (α : Type) [Operand α] (text : String) :
    Except CalculationError α := do
  match ← (words text).foldlM (postfixStep α) [] with
  | [result] => readOperand α result
  | _ => .error .missingOperand

/-- Evaluates an expression text. -/
def calculate (α : Type) [Operand α] (text : String) :
    Except CalculationError α := do
  let items ← toPostfix text
  evaluatePostfix α (postfixText items)

/-- Applies the operator that a character writes to two operand texts. -/
def applyTexts (α : Type) [Operand α] (left right : String)
    (symbol : Char) : Except CalculationError α := do
  let leftValue ← readOperand α left
  let rightValue ← readOperand α right
  let op ← Operator.ofChar symbol
  Operand.apply op leftValue rightValue

/-- Compares two operand texts.  The operands are read first, from left to
right, and the relational operator last. -/
def compareTexts (α : Type) [Operand α] (left right : String)
    (token : String) : Except CalculationError Bool := do
  let leftValue ← readOperand α left
  let rightValue ← readOperand α right
  match Comparison.ofToken? token with
  | some comparison => return Operand.holds comparison leftValue rightValue
  | none => .error (.invalidOperator token)

/-- Combines two truth texts.  Only one word is true; an empty right side takes
the value of the left one; every operator but `and` is taken for `or`. -/
def combineTexts (left right token : String) : Bool :=
  let leftTrue : Bool := left = Word.truth
  let rightTrue : Bool := if right = "" then leftTrue else right = Word.truth
  if token = Word.conjunction then leftTrue && rightTrue
  else leftTrue || rightTrue

end LineScript
