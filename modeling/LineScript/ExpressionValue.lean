/-
The value of an expression.  Numbers are combined and compared through their
texts.  Only taking the last element out of an array changes the store.
-/
import LineScript.Calculator
import LineScript.Machine

namespace LineScript

/-- A calculation as part of a statement. -/
def calculated {α : Type} (result : Except CalculationError α) :
    Except Fault α :=
  result.mapError Fault.calculation

theorem calculated_eq_ok_iff {α : Type} {result : Except CalculationError α}
    {value : α} : calculated result = .ok value ↔ result = .ok value := by
  cases result with
  | error error => exact iff_of_false nofun nofun
  | ok found =>
      have hfound : calculated (.ok found) = .ok found := rfl
      rw [hfound, Except.ok.injEq, Except.ok.injEq]

/-- Compares two values with the comparison that a token writes.  Values that
are not both numbers are equal when their texts are, and have no order. -/
def compareValues (left : Value) (token : String) (right : Value) :
    Except Fault Bool :=
  match left, right with
  | .int _, .int _ =>
    calculated (compareTexts Int64 left.render right.render token)
  | _, _ =>
    if left.isNumeric && right.isNumeric then
      calculated (compareTexts Float left.render right.render token)
    else if token = Comparison.equal.symbol then
      .ok (left.render = right.render)
    else if token = Comparison.unequal.symbol then
      .ok (left.render ≠ right.render)
    else
      .error (.typeMismatch token left.kind right.kind)

/-- The result of an arithmetic operator.  A sum with a text joins the texts.
Integers stay integers unless a double is asked for. -/
def combineValues (left : Value) (token : String) (right : Value)
    (hint : Option Kind) : Except Fault Value :=
  let expression := s!"{left.render} {token} {right.render}"
  let joins := left.kind = .text ∨ right.kind = .text
  if joins ∧ token = String.singleton Operator.add.symbol ∧
      right.kind ≠ .absent then
    .ok (.text (left.render ++ right.render))
  else if left.kind = .int ∧ right.kind = .int ∧ hint ≠ some .double then
    calculated ((calculate Int64 expression).map Value.int)
  else if left.isNumeric ∧ right.isNumeric then
    calculated ((calculate Float expression).map Value.double)
  else
    .error (.typeMismatch token left.kind right.kind)

/-- The result of any binary operator.  Without an operator the left value is
the result. -/
def binaryValue (left : Value) (token : String) (right : Value)
    (hint : Option Kind) : Except Fault Value :=
  if token = "" then .ok left
  else if isRelational token then
    (compareValues left token right).map Value.bool
  else if isConnective token then
    .ok (.bool (combineTexts left.render right.render token))
  else if (Operator.ofToken? token).isSome then
    combineValues left token right hint
  else
    .error (.invalidOperator token)

/-- The element at an index. -/
def elementAt (elements : List Value) (index : Int64) : Except Fault Value :=
  if index < 0 then .error (.indexOutOfBounds index elements.length)
  else
    match elements[index.toInt.toNat]? with
    | some element => .ok element
    | none => .error (.indexOutOfBounds index elements.length)

theorem elementAt_eq_ok_iff {elements : List Value} {index : Int64}
    {element : Value} :
    elementAt elements index = .ok element ↔
      ¬ index < 0 ∧ elements[index.toInt.toNat]? = some element := by
  unfold elementAt
  by_cases hnegative : index < 0
  · simp [hnegative]
  · cases hfound : elements[index.toInt.toNat]? <;> simp [hnegative]

namespace Machine

/-- The element of an array at an index token.  The index is looked at before
the array. -/
def arrayElement (machine : Machine) (source index : String) :
    Except Fault Value := do
  let place ← machine.resolveIndex index
  let elements ← machine.elements (machine.substitute source)
  elementAt elements place

/-- The last element of an array. -/
def lastElement (machine : Machine) (name : String) : Except Fault Value := do
  let elements ← machine.elements name
  match elements.getLast? with
  | some element => .ok element
  | none => .error (.emptyArray name)

/-- Takes the last element out of an array; a constant array keeps it. -/
def popElement (machine : Machine) (name : String) :
    Except Fault (Value × Store) := do
  let element ← machine.lastElement name
  let store ← machine.changeElements name fun elements =>
    .ok elements.dropLast
  return (element, store)

/-- The value of an expression and the store after it. -/
def evaluate (machine : Machine) (expression : Expression)
    (hint : Option Kind) : Except Fault (Value × Store) := do
  let source := machine.substitute expression.left
  if source = Word.arrayAt then
    let element ← machine.arrayElement expression.middle expression.right
    return (element, machine.store)
  else if source = Word.arrayLength then
    let elements ← machine.elements (machine.substitute expression.middle)
    return (.int (Int64.ofNat elements.length), machine.store)
  else if source = Word.arrayPop then
    machine.popElement (machine.substitute expression.middle)
  else
    let value ← binaryValue (machine.resolve expression.left)
      (machine.substitute expression.middle)
      (machine.resolve expression.right) hint
    return (value, machine.store)

/-- The truth of a condition. -/
def evaluateCondition (machine : Machine) (expression : Expression) :
    Except Fault Bool :=
  let left := machine.resolve expression.left
  let right := machine.resolve expression.right
  let token := machine.substitute expression.middle
  if isRelational token then compareValues left token right
  else if token = "" ∨ isConnective token then
    .ok (combineTexts left.render right.render token)
  else
    .error (.invalidOperator token)

end Machine

end LineScript
