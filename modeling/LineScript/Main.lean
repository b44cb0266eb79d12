/-
The command: reads the program file and the standard input, runs the program,
and prints what it leaves.
-/
import LineScript.Invocation

namespace LineScript

/-- The reason for a failed file access, as the operating system words it. -/
def accessFailure : IO.Error → String
  | .noFileOrDirectory _ code _ =>
    s!"No such file or directory (os error {code})"
  | .permissionDenied _ code _ => s!"Permission denied (os error {code})"
  | .inappropriateType _ code _ => s!"Is a directory (os error {code})"
  | other => toString other

/-- The contents of a file, or why they cannot be read. -/
def readContents (file : String) : IO (Except String ByteArray) := do
  try
    return .ok (← IO.FS.readBinFile file)
  catch failure =>
    return .error (accessFailure failure)

/-- Prints the output of a finished command. -/
def finish (completion : Completion) : IO UInt32 := do
  (← IO.getStdout).putStr completion.output
  (← IO.getStdout).flush
  (← IO.getStderr).putStr completion.errors
  return completion.exitCode

/-- Carries out a command line and gives its exit code. -/
def command (commandLine : List String) : IO UInt32 := do
  match Invocation.ofCommandLine? commandLine with
  | none =>
    IO.eprintln "usage: [--no-report] FILE [ARGUMENT]..."
    return 2
  | some invocation =>
    let contents ← readContents invocation.file
    let bytes ← (← IO.getStdin).readBinToEnd
    let input := InputStream.ofBytes bytes
    match invocation.run patientBudget contents input with
    | none => return 1
    | some completion => finish completion

end LineScript

def main (commandLine : List String) : IO UInt32 :=
  LineScript.command commandLine
