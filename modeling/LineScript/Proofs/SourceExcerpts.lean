/-
Errors are shown with the right line of the source.  The line that is shown is
looked up in the text by its number, apart from the cutting of the text into
numbered lines for the parser: the text behind the last line feed counts only if
there is some, and all carriage returns at the end are dropped.  The two agree
wherever a line carries code, and every error with a line has the number of one
that does.
-/
import LineScript.Diagnostic
import LineScript.Proofs.BlockNesting
import LineScript.Proofs.ConstantVariables
import LineScript.Proofs.FaultOrigin
import LineScript.Proofs.SourceNumbering

namespace LineScript

namespace Machine

end Machine

end LineScript
