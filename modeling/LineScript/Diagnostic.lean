/-
Showing an error in its source.  The failing line is printed with a caret under
the token that the error is about, or under the start of the line if that token
is not found.  Positions are counted in bytes.
-/
import LineScript.Fault
import LineScript.Literal
import LineScript.ParseError
import LineScript.SourceLine

namespace LineScript

/-- A source text with the name of its file. -/
structure SourceView where
  source : String
  file : String
  deriving DecidableEq, Repr

/-- The text between the last two quote marks of a message. -/
def lastQuoted? (message : String) : Option String :=
  match cutAt (· == quoteMark) message.toList.reverse with
  | (_, none) => none
  | (_, some front) =>
    match cutAt (· == quoteMark) front with
    | (_, none) => none
    | (quoted, some _) => some (String.ofList quoted.reverse)

/-- The place of a token among pieces that stand one space apart: where the
piece that holds nothing else but blanks has its first other character. -/
def tokenOffset? (token : List Char) (offset : Nat) :
    List (List Char) → Option Nat
  | [] => none
  | piece :: later =>
    if trimBlank piece = token then
      some (offset + byteCount (piece.takeWhile isBlank))
    else
      tokenOffset? token (offset + byteCount piece + 1) later

/-- The byte offset of a token in a line. -/
def findToken? (line token : String) : Option Nat :=
  tokenOffset? token.toList 0 (pieces (· == ' ') line.toList)

/-- The byte length of the blanks in front of a line. -/
def indentation (line : String) : Nat :=
  byteCount (line.toList.takeWhile isBlank)

/-- Drops all carriage returns at the end of a line. -/
def dropCarriageReturns (line : String) : String :=
  String.ofList (line.toList.reverse.dropWhile (· == '\r')).reverse

/-- The lines of a source as they are shown.  The text behind the last line
feed is a line only if it is not empty. -/
def shownLines (source : String) : List String :=
  let lines := physicalLines source
  let ended := if lines.getLast? = some "" then lines.dropLast else lines
  ended.map dropCarriageReturns

/-- The line with the given number, counted from one. -/
def shownLine? (source : String) (number : Nat) : Option String :=
  match number with
  | 0 => none
  | before + 1 => (shownLines source)[before]?

/-- A line number, right-aligned in at least two places. -/
def alignedNumber (number : Nat) : String :=
  if number < 10 then s!" {number}" else toString number

/-- Where the caret stands: under the token that the error is about, or at the
start of the statement. -/
def caretPosition (line : String) (hint : Option String) : Nat :=
  let found :=
    match hint with
    | none => none
    | some token => if token = "" then none else findToken? line token
  found.getD (indentation line)

namespace SourceView

/-- A message with the source line that it is about. -/
def excerpt (view : SourceView) (message : String) (number : Nat)
    (hint : Option String) : String :=
  let line := (shownLine? view.source number).getD "<line not available>"
  let padding := "".pushn ' ' (caretPosition line hint)
  let aligned := alignedNumber number
  s!"Error at {view.file}:{number}:\n   |\n{aligned} | {line}\n   | {padding}^^ {message}\n   |"

/-- Shows why the source was refused. -/
def showParseError (view : SourceView) (error : ParseError) : String :=
  let message := error.cause.message
  view.excerpt message error.line (lastQuoted? message)

/-- Shows why a run of the source failed. -/
def showRunError (view : SourceView) (error : RunError) : String :=
  match error.line with
  | some number => view.excerpt error.fault.message number error.fault.subject?
  | none => s!"Runtime Error: {error.message}"

end SourceView

end LineScript
