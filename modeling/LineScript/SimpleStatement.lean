/-
Statements without a body.  Those that change variables either succeed or leave
the machine as it was; printing may stop after some of its writes, and reading
after some of its targets.
-/
import LineScript.ExpressionValue

namespace LineScript

/-- Something to print: the text of a value, or a format character. -/
inductive PrintPiece
  | value (text : String)
  | format (c : Char)
  deriving DecidableEq, Repr

/-- The writes that print some pieces.  Only two values in a row have a space
between them. -/
def printWrites (afterValue : Bool) : List PrintPiece → List String
  | [] => []
  | .value text :: later =>
    if afterValue then " " :: text :: printWrites true later
    else text :: printWrites true later
  | .format c :: later => String.singleton c :: printWrites false later

/-- Reads an input word as the number that a read statement asks for, or tells
why it is none. -/
def readNumber (kind : StatementKind) (word : String) : Except String Value :=
  if kind = .readInt then
    match readInteger word with
    | .ok value => .ok (.int value)
    | .error fault => .error fault.message
  else
    match readDouble? word with
    | some value => .ok (.double value)
    | none => .error "invalid float literal"

/-- How many elements a pop statement removes from an array that ends with
`last`: all of them if that is an array with elements, and otherwise as many as
the count asks for. -/
def popCount (size : Nat) (last : Value) (asked : Option Nat) : Nat :=
  match last with
  | .array (_ :: _) => size
  | _ => min (asked.getD 1) size

namespace Machine

/-- Declares a variable or a constant.  If the name is taken, nothing is even
evaluated. -/
def declare (machine : Machine) (statement : Statement) :
    Except Fault Machine := do
  let name := machine.targetName statement
  if machine.store.contains name then
    return machine
  else
    let (value, store) ← machine.evaluate statement.expression none
    let constant : Bool := statement.kind = .constant
    return { machine with store := store.declare name ⟨value, constant⟩ }

/-- Keeps a variable that holds a double a double. -/
def keepDouble (held : Kind) : Value → Value
  | .int value => if held = .double then .double (doubleOfInteger value)
    else .int value
  | value => value

/-- Assigns to a variable.  A constant keeps its value, and nothing is even
evaluated. -/
def assign (machine : Machine) (statement : Statement) :
    Except Fault Machine := do
  let name := machine.targetName statement
  let held ← machine.lookup name
  if held.constant then
    return machine
  else
    let kind := held.value.kind
    let (value, store) ← machine.evaluate statement.expression (some kind)
    return { machine with store := store.setValue name (keepDouble kind value) }

/-- The elements of a declared array and the store after taking them. -/
def initialElements (machine : Machine) (expression : Expression) :
    Except Fault (List Value × Store) := do
  let source := machine.substitute expression.left
  if source = Word.arrayAt then
    match ← machine.arrayElement expression.middle expression.right with
    | .array elements => return (elements, machine.store)
    | _ =>
      .error (.notAnArray s!"{expression.middle}[{expression.right}]")
  else if source = Word.arrayPop then
    let name := machine.substitute expression.middle
    match ← machine.lastElement name with
    | .array elements =>
      let (_, store) ← machine.popElement name
      return (elements, store)
    | _ => .error (.notAnArray s!"tail of {name}")
  else
    return (expression.operands.map machine.resolve, machine.store)

/-- Declares an array.  If the name is taken, nothing is even evaluated. -/
def declareArray (machine : Machine) (statement : Statement) :
    Except Fault Machine := do
  let name := machine.targetName statement
  if machine.store.contains name then
    return machine
  else
    let (elements, store) ← machine.initialElements statement.expression
    return { machine with store := store.declare name ⟨.array elements, false⟩ }

/-- Appends a value to an array. -/
def appendElement (machine : Machine) (statement : Statement) :
    Except Fault Machine := do
  let name := machine.substitute statement.expression.left
  let value := machine.resolve statement.expression.middle
  let store ← machine.changeElements name fun elements =>
    .ok (elements ++ [value])
  return { machine with store }

/-- Replaces an element of an array.  The index is looked at before the
array. -/
def setElement (machine : Machine) (statement : Statement) :
    Except Fault Machine := do
  let name := machine.substitute statement.expression.left
  let index ← machine.resolveIndex statement.expression.middle
  let value := machine.resolve statement.expression.right
  let store ← machine.changeElements name fun elements => do
    let _ ← elementAt elements index
    return elements.set index.toInt.toNat value
  return { machine with store }

/-- Removes elements from the end of an array: as many as a second array has,
if one with elements is given. -/
def removeElements (machine : Machine) (statement : Statement) :
    Except Fault Machine := do
  let name := machine.substitute statement.expression.left
  let asked :=
    match machine.resolve statement.expression.middle with
    | .array (first :: later) => some (first :: later).length
    | _ => none
  let store ← machine.changeElements name fun elements =>
    match elements.getLast? with
    | none => .error (.emptyArray name)
    | some last =>
      let size := elements.length
      .ok (elements.take (size - popCount size last asked))
  return { machine with store }

/-- What a token prints: the value of the variable with its name, a format
character, or its own text without quotes. -/
def printPiece (machine : Machine) (token : String) : PrintPiece :=
  let name := machine.substitute token
  match machine.store.value? name with
  | some value => .value value.render
  | none =>
    match formatCharacter? name with
    | some c => .format c
    | none => .value (stripQuotes name)

/-- The writes of a print statement. -/
def statementWrites (machine : Machine) (statement : Statement) :
    List String :=
  let printed := printWrites false (statement.operands.map machine.printPiece)
  if statement.kind = .printLn then printed ++ ["\n"] else printed

def print (machine : Machine) (statement : Statement) :
    Except Fault Unit × Machine :=
  let (result, output) :=
    machine.output.writeAll (machine.statementWrites statement)
  (result, { machine with output })

/-- Reads one number into a variable.  The variable must exist, but a constant
keeps its value. -/
def readInto (machine : Machine) (kind : StatementKind) (token : String) :
    Except Fault Unit × Machine :=
  let name := machine.substitute token
  if !machine.store.contains name then
    (.error (.undefinedVariable name), machine)
  else
    match machine.output.flush with
    | .error fault => (.error fault, machine)
    | .ok () =>
      let (word?, input) := machine.input.nextWord
      let machine := { machine with input }
      match word? with
      | .error fault => (.error fault, machine)
      | .ok none =>
        (.error (.invalidInput name "unexpected end of input"), machine)
      | .ok (some word) =>
        match readNumber kind word with
        | .error reason =>
          (.error (.invalidInput name s!"'{word}': {reason}"), machine)
        | .ok value =>
          let store := machine.store.modify name fun held =>
            if held.constant then held else { held with value }
          (.ok (), { machine with store })

/-- Reads numbers into variables, one after another, up to the first that
fails. -/
def readAll (machine : Machine) (kind : StatementKind) :
    List String → Except Fault Unit × Machine
  | [] => (.ok (), machine)
  | token :: later =>
    match machine.readInto kind token with
    | (.ok (), machine) => readAll machine kind later
    | failed => failed

/-- Reads the targets of a read statement.  Only numbers can be read; the other
read statements do nothing. -/
def read (machine : Machine) (statement : Statement) :
    Except Fault Unit × Machine :=
  if statement.kind = .readInt ∨ statement.kind = .readFloat then
    machine.readAll statement.kind statement.operands
  else
    (.ok (), machine)

/-- Registers the procedure that a statement defines, under its name as
written. -/
def define (machine : Machine) (statement : Statement) : Machine :=
  match statement.target? with
  | none => machine
  | some name =>
    machine.defineProcedure name ⟨statement.expression, statement.body⟩

/-- Takes over a changed machine; a failed change leaves the old one. -/
def commit (machine : Machine) :
    Except Fault Machine → Except Fault Unit × Machine
  | .ok changed => (.ok (), changed)
  | .error fault => (.error fault, machine)

/-- Carries out a statement without a body.  Blocks, calls and returns are not
carried out here. -/
def perform (machine : Machine) (statement : Statement) :
    Handler → Except Fault Unit × Machine
  | .declare => machine.commit (machine.declare statement)
  | .arrayDeclare => machine.commit (machine.declareArray statement)
  | .arrayAppend => machine.commit (machine.appendElement statement)
  | .arraySet => machine.commit (machine.setElement statement)
  | .arrayPop => machine.commit (machine.removeElements statement)
  | .assign => machine.commit (machine.assign statement)
  | .print => machine.print statement
  | .read => machine.read statement
  | .define => (.ok (), machine.define statement)
  | .block | .call | .leave => (.ok (), machine)

end Machine

end LineScript
