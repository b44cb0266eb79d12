/-
The output of a program.  A write is carried out as a whole or not at all; it
fails when the output would become longer than its limit.  Whether flushing fails
is fixed for an output: either every flush of it fails, the one in front of a
number that is read as well as the one at the end of a program, or none does.
-/
import LineScript.Fault

namespace LineScript

/-- The text written so far, the number of bytes that it may have, and whether
every flush fails. -/
structure OutputStream where
  written : String := ""
  limit : Option Nat := none
  flushFails : Bool := false
  deriving DecidableEq, Repr

namespace OutputStream

/-- The output has room for a text.  An empty text needs none. -/
def fits (output : OutputStream) (text : String) : Bool :=
  match output.limit with
  | none => true
  | some limit =>
    text = "" || output.written.utf8ByteSize + text.utf8ByteSize ≤ limit

/-- Writes one text. -/
def write (output : OutputStream) (text : String) :
    Except Fault Unit × OutputStream :=
  if output.fits text then
    (.ok (), { output with written := output.written ++ text })
  else
    (.error (.stream "output limit"), output)

/-- Writes texts one after another, up to the first that fails. -/
def writeAll (output : OutputStream) :
    List String → Except Fault Unit × OutputStream
  | [] => (.ok (), output)
  | text :: later =>
    match output.write text with
    | (.ok (), output) => writeAll output later
    | failed => failed

/-- Flushes the output, which leaves it as it is. -/
def flush (output : OutputStream) : Except Fault Unit :=
  if output.flushFails then .error (.stream "flush failed") else .ok ()

end OutputStream

end LineScript
