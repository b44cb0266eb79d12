/-
Arithmetic operators and the failures of a calculation.
-/
namespace LineScript

/-- Why a calculation has no result. -/
inductive CalculationError
  | invalidOperator (symbol : String)
  | moduloOnDouble
  | divisionByZero
  | overflow (symbol : Char)
  | missingOperand
  | invalidOperand (text : String)
  | unbalancedParentheses
  deriving DecidableEq, Repr

/-- The wording of a failed calculation. -/
def CalculationError.message : CalculationError → String
  | invalidOperator symbol => s!"invalid operator '{symbol}'"
  | moduloOnDouble => "invalid operator '%' used for non integral type"
  | divisionByZero => "division by zero"
  | overflow symbol => s!"arithmetic overflow evaluating '{symbol}'"
  | missingOperand => "no number within given stream"
  | invalidOperand text => s!"'{text}' is not a number"
  | unbalancedParentheses => "unbalanced parentheses"

/-- The arithmetic operators. -/
inductive Operator
  | add | sub | mul | div | mod | pow
  deriving DecidableEq, Repr

namespace Operator

/-- The character that an operator is written with. -/
def symbol : Operator → Char
  | add => '+'
  | sub => '-'
  | mul => '*'
  | div => '/'
  | mod => '%'
  | pow => '^'

/-- All operators. -/
def all : List Operator :=
  [add, sub, mul, div, mod, pow]

/-- The operator that a character writes. -/
def ofChar? (c : Char) : Option Operator :=
  all.find? fun op => op.symbol = c

/-- The operator that a character writes; any other character is an error. -/
def ofChar (c : Char) : Except CalculationError Operator :=
  match ofChar? c with
  | some op => .ok op
  | none => .error (.invalidOperator (String.singleton c))

/-- The operator that a whole token writes. -/
def ofToken? (token : String) : Option Operator :=
  match token.toList with
  | [c] => ofChar? c
  | _ => none

/-- How tightly an operator binds.  Operators of one level are taken from left
to right. -/
def precedence : Operator → Nat
  | add | sub => 0
  | mul | div | mod => 1
  | pow => 2

@[simp]
theorem ofChar?_symbol (op : Operator) : ofChar? op.symbol = some op := by
  cases op <;> decide

theorem symbol_of_ofChar? {c : Char} {op : Operator}
    (h : ofChar? c = some op) : op.symbol = c := by
  simpa using List.find?_some h

end Operator

end LineScript
