/-
What can go wrong while a program runs.  A fault is a cause without a place; a
run error adds the line of the statement that failed.  The innermost line wins.
-/
import LineScript.Operator
import LineScript.Value

namespace LineScript

/-- Why a statement failed. -/
inductive Fault
  | undefinedVariable (name : String)
  | functionNotFound (name : String)
  | notAnArray (name : String)
  | indexOutOfBounds (index : Int64) (size : Nat)
  | emptyArray (name : String)
  | typeMismatch (operator : String) (left right : Kind)
  | invalidOperator (operator : String)
  | invalidIndex (text : String)
  | invalidInput (target reason : String)
  | recursionLimit (limit : Nat)
  | stream (reason : String)
  | calculation (error : CalculationError)
  deriving DecidableEq, Repr

namespace Fault

/-- The wording of a fault. -/
def message : Fault → String
  | undefinedVariable name => s!"Undefined variable: {name}"
  | functionNotFound name => s!"Function not found: {name}"
  | notAnArray name => s!"Variable {name} is not an array"
  | indexOutOfBounds index size =>
    let shown := integerText index
    s!"Array index {shown} out of bounds for array of size {size}"
  | emptyArray name => s!"Cannot pop from empty array {name}"
  | typeMismatch operator left right =>
    s!"Type error: {operator} cannot combine {left.label} and {right.label}"
  | invalidOperator operator => s!"Invalid operator '{operator}'"
  | invalidIndex text => s!"Invalid index '{text}': expected an integer"
  | invalidInput target reason => s!"Invalid input for {target}: {reason}"
  | recursionLimit limit => s!"Maximum recursion depth of {limit} exceeded"
  | stream reason => s!"I/O error: {reason}"
  | calculation error => s!"Calculation failed: {error.message}"

/-- The token that a fault complains about. -/
def subject? : Fault → Option String
  | undefinedVariable name | functionNotFound name | notAnArray name
  | emptyArray name => some name
  | invalidIndex text => some text
  | invalidInput target _ => some target
  | typeMismatch operator _ _ | invalidOperator operator => some operator
  | _ => none

end Fault

/-- A fault with the line of the failed statement, once that is known. -/
structure RunError where
  fault : Fault
  line : Option Nat := none
  deriving DecidableEq, Repr

namespace RunError

/-- Attaches a line to an error that has none. -/
def atLine (error : RunError) (line : Nat) : RunError :=
  { error with line := error.line.or (some line) }

/-- The wording of an error, with its line. -/
def message (error : RunError) : String :=
  match error.line with
  | none => error.fault.message
  | some line => s!"{error.fault.message}, at line: {line}"

end RunError

end LineScript
