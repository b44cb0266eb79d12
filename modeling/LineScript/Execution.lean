/-
Running statements.  A run is bounded by a step budget that grows smaller with
every nested or following step; it ends with a flow or an error and the final
machine, or it runs out of budget and has no outcome.  A larger budget is only
ever more patient.
-/
import LineScript.SimpleStatement

namespace LineScript

/-- How a statement hands on control: to the next statement, out of the active
call, or out of the whole program. -/
inductive Flow
  | next | leave | halt
  deriving DecidableEq, Repr

/-- How a run ended, and the machine at its end. -/
abbrev Outcome := Except RunError Flow × Machine

/-- A fault of the statement itself, before its line is known. -/
def Outcome.fault (fault : Fault) (machine : Machine) : Outcome :=
  (.error { fault }, machine)

/-- Attaches the line of a statement to an error that has none. -/
def Outcome.atLine (outcome : Outcome) (line : Nat) : Outcome :=
  (outcome.1.mapError (·.atLine line), outcome.2)

/-- A return inside a call ends with the call. -/
def Flow.afterCall : Flow → Flow
  | leave => next
  | flow => flow

namespace Machine

def enterBlock (machine : Machine) : Machine :=
  { machine with store := machine.store.enter }

def exitBlock (machine : Machine) : Machine :=
  { machine with store := machine.store.exit.2 }

/-- The bindings of a call: every parameter with the argument in its slot, as
that stands for in the calling code.  Empty slots bind nothing, and of two equal
parameters the later one counts. -/
def bindArguments (machine : Machine) (parameters arguments : Expression) :
    Bindings :=
  let pairs := parameters.slots.zip arguments.slots
  let used := pairs.filter fun (parameter, argument) =>
    parameter ≠ "" && argument ≠ ""
  (used.map fun (parameter, argument) =>
    (parameter, machine.substitute argument)).reverse

/-- The procedure that a call statement calls, unless it is unknown or too many
calls are active. -/
def callee (machine : Machine) (statement : Statement) :
    Except Fault Procedure :=
  let name := machine.targetName statement
  match machine.procedures.lookup name with
  | none => .error (.functionNotFound name)
  | some procedure =>
    if machine.callLimit ≤ machine.calls then
      .error (.recursionLimit machine.callLimit)
    else
      .ok procedure

def enterCall (machine : Machine) (bound : Bindings) : Machine :=
  { machine with
    bindings := bound :: machine.bindings
    calls := machine.calls + 1 }

def exitCall (machine : Machine) : Machine :=
  { machine with
    bindings := machine.bindings.tail
    calls := machine.calls - 1 }

/-- The truth of the condition of a block.  An alternative without a condition
always runs. -/
def blockCondition (machine : Machine) (statement : Statement) :
    Except Fault Bool :=
  if statement.kind = .otherwise ∧ statement.expression.isEmpty then .ok true
  else machine.evaluateCondition statement.expression

mutual

/-- Runs statements in order, up to the first that hands control elsewhere. -/
def runStatements (budget : Nat) (statements : List Statement)
    (machine : Machine) : Option Outcome :=
  match budget with
  | 0 => none
  | budget + 1 =>
    match statements with
    | [] => some (.ok .next, machine)
    | statement :: later =>
      match runStatement budget statement machine with
      | some (.ok .next, machine) => runStatements budget later machine
      | outcome => outcome

/-- Runs one statement.  An error without a line gets that of the
statement. -/
def runStatement (budget : Nat) (statement : Statement)
    (machine : Machine) : Option Outcome :=
  match budget with
  | 0 => none
  | budget + 1 =>
    match statement.kind.handler? with
    | none => some (.ok .halt, machine)
    | some .leave => some (.ok .leave, machine)
    | some .block =>
      (runBlock budget statement machine).map (·.atLine statement.lineNo)
    | some .call =>
      (runCall budget statement machine).map (·.atLine statement.lineNo)
    | some handler =>
      match machine.perform statement handler with
      | (.ok (), machine) => some (.ok .next, machine)
      | (.error fault, machine) =>
        some ((Outcome.fault fault machine).atLine statement.lineNo)

/-- Runs a block while its condition holds: once, or again and again if it is a
loop. -/
def runBlock (budget : Nat) (statement : Statement) (machine : Machine) :
    Option Outcome :=
  match budget with
  | 0 => none
  | budget + 1 =>
    match machine.blockCondition statement with
    | .error fault => some (.fault fault machine)
    | .ok false => some (.ok .next, machine)
    | .ok true =>
      match runScoped budget statement.body machine with
      | some (.ok .next, machine) =>
        if statement.kind = .loop then runBlock budget statement machine
        else some (.ok .next, machine)
      | outcome => outcome

/-- Runs a body in a frame of its own, which is closed however the run ends. -/
def runScoped (budget : Nat) (body : List Statement) (machine : Machine) :
    Option Outcome :=
  match budget with
  | 0 => none
  | budget + 1 =>
    match runStatements budget body machine.enterBlock with
    | none => none
    | some (result, machine) => some (result, machine.exitBlock)

/-- Runs the procedure that a statement calls, with its arguments bound. -/
def runCall (budget : Nat) (statement : Statement) (machine : Machine) :
    Option Outcome :=
  match budget with
  | 0 => none
  | budget + 1 =>
    match machine.callee statement with
    | .error fault => some (.fault fault machine)
    | .ok procedure =>
      let bound :=
        machine.bindArguments procedure.parameters statement.expression
      match runScoped budget procedure.body (machine.enterCall bound) with
      | none => none
      | some (result, machine) =>
        some (result.map Flow.afterCall, machine.exitCall)

end

/-- The array of the external arguments that are not empty. -/
def argumentValues (arguments : Arguments) : Value :=
  .array ((arguments.toList.filter (· ≠ "")).map Value.ofLiteral)

/-- Declares the constant that holds the external arguments, unless an earlier
program has done so. -/
def declareArguments (machine : Machine) (arguments : Arguments) : Machine :=
  let held : Variable := ⟨argumentValues arguments, true⟩
  { machine with store := machine.store.declare Word.arguments held }

/-- Runs a program.  The output is flushed at the end, and a failure to do so
takes the place of any other result. -/
def execute (budget : Nat) (program : Program) (machine : Machine) :
    Option Outcome :=
  let started := machine.declareArguments program.arguments
  match runStatements budget program.statements started with
  | none => none
  | some (result, machine) =>
    match machine.output.flush with
    | .ok () => some (result, machine)
    | .error fault => some (.fault fault machine)

end Machine

/-- A step budget that no run on a real computer uses up. -/
def patientBudget : Nat := 4611686018427387904

end LineScript
