/-
The input of a program as one stream of words.  Lines are taken only when the
words of the lines before are used up.
-/
import LineScript.Fault
import LineScript.SourceLine

namespace LineScript

/-- The words that are ready, and the lines not yet looked at.  A line that is
not valid UTF-8 has no text. -/
structure InputStream where
  pending : List String := []
  lines : List (Option String) := []

namespace InputStream

/-- The input with the given text. -/
def ofText (text : String) : InputStream where
  lines := (physicalLines text).map some

/-- The input with the given bytes.  Each line is decoded on its own. -/
def ofBytes (bytes : ByteArray) : InputStream where
  lines := (pieces (· == 10) bytes.toList).map fun line =>
    String.fromUTF8? ⟨line.toArray⟩

/-- The first word of some lines.  A line without text is used up and raises a
fault. -/
def firstWord : List (Option String) →
    Except Fault (Option String) × InputStream
  | [] => (.ok none, {})
  | none :: lines =>
    (.error (.stream "stream did not contain valid UTF-8"), { lines })
  | some line :: lines =>
    match words line with
    | [] => firstWord lines
    | word :: pending => (.ok (some word), { pending, lines })

/-- Takes the next word of the input, if there is one. -/
def nextWord (input : InputStream) :
    Except Fault (Option String) × InputStream :=
  match input.pending with
  | word :: pending => (.ok (some word), { input with pending })
  | [] => firstWord input.lines

end InputStream

end LineScript
