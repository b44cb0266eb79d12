/-
Why a program text is refused.  A cause carries the tokens it complains about;
the wording stands in one function.
-/
import LineScript.Statement

namespace LineScript

/-- What is wrong with a line. -/
inductive ParseCause
  | unknownStatement (token : String)
  | missingAssign (found : Option String)
  | tokenCount (kind : StatementKind) (found least most : Nat)
  | missingBlockOpen (kind : StatementKind)
  | unterminatedBlock
  | unexpectedBlockMarker (marker : String)
  | malformedArrayLiteral
  | missingParameterSeparator (found : Option String)
  | duplicateParameter (name : String)
  deriving DecidableEq, Repr

/-- The wording of a cause. -/
def ParseCause.message : ParseCause → String
  | unknownStatement token => s!"invalid statement starting with '{token}'"
  | missingAssign (some found) => s!"expected '=' but found '{found}'"
  | missingAssign none => "expected '='"
  | tokenCount kind found least most =>
    if least = most then
      s!"{kind.label} statement takes {least} tokens, found {found}"
    else
      s!"{kind.label} statement takes {least} to {most} tokens, found {found}"
  | missingBlockOpen kind => s!"{kind.label} statement must end with '\x7b'"
  | unterminatedBlock => "block is never closed with '\x7d'"
  | unexpectedBlockMarker marker => s!"unexpected '{marker}'"
  | malformedArrayLiteral => "array literal must be written as '[ E1 E2 E3 ]'"
  | missingParameterSeparator (some found) =>
    s!"expected ':' after function name but found '{found}'"
  | missingParameterSeparator none => "expected ':' after function name"
  | duplicateParameter name => s!"parameter '{name}' is declared twice"

/-- A cause together with the number of the line it was found on. -/
structure ParseError where
  cause : ParseCause
  line : Nat
  deriving DecidableEq, Repr

/-- The wording of an error, with its line. -/
def ParseError.message (error : ParseError) : String :=
  s!"{error.cause.message}, at line: {error.line}"

end LineScript
