/-
The state of a running program: its variables, the procedures defined so far,
the parameter bindings of the active calls, and its two streams.  A parameter is
bound to a token, not to a value; where a token is used, it is first replaced by
what the active call binds it to.
-/
import LineScript.InputStream
import LineScript.Literal
import LineScript.OutputStream
import LineScript.Store

namespace LineScript

/-- A defined procedure: its parameter slots and its body. -/
structure Procedure where
  parameters : Expression
  body : List Statement

/-- The tokens that the parameters of one call stand for. -/
abbrev Bindings := List (String × String)

/-- The limit on active calls where none is given. -/
def defaultCallLimit : Nat := 200

/-- The state of a running program.  The bindings of the innermost call come
first. -/
structure Machine where
  store : Store := {}
  procedures : List (String × Procedure) := []
  bindings : List Bindings := []
  calls : Nat := 0
  callLimit : Nat := defaultCallLimit
  input : InputStream := {}
  output : OutputStream := {}

namespace Machine

/-- The token that a token stands for in the active call. -/
def substitute (machine : Machine) (token : String) : String :=
  match machine.bindings with
  | [] => token
  | bound :: _ => (bound.lookup token).getD token

/-- The name that a statement declares, changes or calls in the active call. -/
def targetName (machine : Machine) (statement : Statement) : String :=
  machine.substitute (statement.target?.getD "")

/-- The value of a token: that of the variable with its name, or that of the
literal. -/
def resolve (machine : Machine) (token : String) : Value :=
  if token = "" then .absent
  else
    let name := machine.substitute token
    (machine.store.value? name).getD (.ofLiteral name)

/-- The value of a token as an array index. -/
def resolveIndex (machine : Machine) (token : String) : Except Fault Int64 :=
  match machine.resolve token with
  | .int index => .ok index
  | other => .error (.invalidIndex other.render)

/-- The variable with a name. -/
def lookup (machine : Machine) (name : String) : Except Fault Variable :=
  match machine.store.get? name with
  | some held => .ok held
  | none => .error (.undefinedVariable name)

/-- The elements of the array with a name. -/
def elements (machine : Machine) (name : String) :
    Except Fault (List Value) := do
  let held ← machine.lookup name
  match held.value with
  | .array elements => .ok elements
  | _ => .error (.notAnArray name)

/-- Changes the elements of an array.  A constant array stays as it is, and the
change is not even tried. -/
def changeElements (machine : Machine) (name : String)
    (change : List Value → Except Fault (List Value)) :
    Except Fault Store := do
  let held ← machine.lookup name
  let elements ← machine.elements name
  if held.constant then
    return machine.store
  else
    let changed ← change elements
    return machine.store.setValue name (.array changed)

/-- Registers a procedure; a later definition replaces an earlier one. -/
def defineProcedure (machine : Machine) (name : String)
    (procedure : Procedure) : Machine :=
  { machine with
    procedures :=
      (name, procedure) :: machine.procedures.filter (·.1 ≠ name) }

end Machine

end LineScript
