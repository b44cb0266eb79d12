/-
Numbered source lines.  A source text is cut at its line feeds; a carriage
return in front of the line feed is not part of the line.  Comment lines and
blank lines carry no statement and are left out, but they keep their numbers.
-/
import LineScript.Words

namespace LineScript

/-- One line of a source together with its number, counted from one. -/
structure SourceLine where
  number : Nat
  text : String
  deriving DecidableEq, Repr

/-- The blank-separated tokens of a line. -/
def SourceLine.tokens (line : SourceLine) : List String :=
  words line.text

def SourceLine.lastToken? (line : SourceLine) : Option String :=
  line.tokens.getLast?

/-- Numbers lines consecutively. -/
def numberFrom (first : Nat) : List String → List SourceLine
  | [] => []
  | text :: later => ⟨first, text⟩ :: numberFrom (first + 1) later

/-- The physical lines of a text: what stands between its line feeds. -/
def physicalLines (source : String) : List String :=
  (pieces (· == '\n') source.toList).map String.ofList

/-- Drops one carriage return at the end of a line. -/
def dropCarriageReturn (line : String) : String :=
  match line.toList.reverse with
  | '\r' :: front => String.ofList front.reverse
  | _ => line

/-- A line carries code unless it is blank or starts with the comment sign;
a comment sign after a blank is an ordinary token. -/
def SourceLine.isCode (line : SourceLine) : Bool :=
  line.text.toList.head? != some '#' && !line.tokens.isEmpty

/-- The lines of a source that carry code, with their physical numbers. -/
def sourceLines (source : String) : List SourceLine :=
  (numberFrom 1 ((physicalLines source).map dropCarriageReturn)).filter
    SourceLine.isCode

end LineScript
