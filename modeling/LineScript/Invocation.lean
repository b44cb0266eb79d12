/-
Running a program file from a command line.  The arguments name the file and the
external arguments of the program; the completion holds everything that the
command prints, and its exit code.
-/
import LineScript.Diagnostic
import LineScript.Execution
import LineScript.ProgramText
import LineScript.StoreReport

namespace LineScript

/-- What a command line asks for. -/
structure Invocation where
  file : String
  arguments : List String
  report : Bool
  deriving DecidableEq, Repr

/-- The output of a finished command. -/
structure Completion where
  exitCode : UInt32
  output : String
  errors : String
  deriving DecidableEq, Repr

namespace Invocation

/-- Sorts the arguments of a command line into positional ones and the option
that switches the report off, which may be given once.  Everything behind a
double dash is positional, and a single dash is. -/
def positionals? (silent : Bool) : List String → Option (List String × Bool)
  | [] => some ([], silent)
  | argument :: later =>
    if argument = "--" then some (later, silent)
    else if argument = "--no-report" then
      if silent then none else positionals? true later
    else if argument.toList.head? = some '-' ∧ argument ≠ "-" then none
    else
      (positionals? silent later).map fun (found, silent) =>
        (argument :: found, silent)

/-- Reads a command line.  The first positional argument is the file. -/
def ofCommandLine? (commandLine : List String) : Option Invocation :=
  match positionals? false commandLine with
  | some (file :: arguments, silent) =>
    if file = "" then none else some ⟨file, arguments, !silent⟩
  | _ => none

/-- A command that fails before its program runs. -/
def failure (errors : String) : Completion :=
  ⟨1, "", errors ++ "\n"⟩

/-- Decodes the contents of the program file. -/
def sourceText (contents : Except String ByteArray) : Except String String :=
  match contents with
  | .error reason => .error reason
  | .ok bytes =>
    match String.fromUTF8? bytes with
    | some source => .ok source
    | none => .error "stream did not contain valid UTF-8"

/-- Runs a program on the input of the command. -/
def runProgram (invocation : Invocation) (budget : Nat) (view : SourceView)
    (program : Program) (input : InputStream) : Option Completion :=
  match Machine.execute budget program { input } with
  | none => none
  | some (.error error, machine) =>
    some ⟨1, machine.output.written, view.showRunError error ++ "\n"⟩
  | some (.ok _, machine) =>
    let report := if invocation.report then machine.store.report else ""
    some ⟨0, machine.output.written ++ report, ""⟩

/-- Carries out a command, given the contents of its file or why there are
none.  The number of arguments is looked at first. -/
def run (invocation : Invocation) (budget : Nat)
    (contents : Except String ByteArray) (input : InputStream) :
    Option Completion :=
  let given := invocation.arguments.length
  if argumentSlots < given then
    some (failure
      s!"Error: at most {argumentSlots} program arguments are accepted, got {given}")
  else
    match sourceText contents with
    | .error reason =>
      some (failure
        s!"Error: failed to read source file '{invocation.file}'\n\nCaused by:\n    {reason}")
    | .ok source =>
      let view : SourceView := ⟨source, invocation.file⟩
      match parseSource source invocation.arguments with
      | .error error => some (failure (view.showParseError error))
      | .ok program => invocation.runProgram budget view program input

end Invocation

end LineScript
