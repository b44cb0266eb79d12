/-
The variable report: one line for each variable, in the order of the names.
-/
import LineScript.Store

namespace LineScript

mutual

/-- The report form of a value: brackets and elements of an array all stand
apart. -/
def Value.reportText : Value → String
  | .array elements => "[" ++ Value.reportElements elements ++ " ]"
  | value => value.render

/-- The report form of elements, each with a space in front. -/
def Value.reportElements : List Value → String
  | [] => ""
  | value :: later => " " ++ value.reportText ++ Value.reportElements later

end

/-- The report line of a variable.  An array shows its name in the place of its
value, and its elements at the end. -/
def reportLine (name : String) (value : Value) : String :=
  match value with
  | .array elements =>
    let listed := Value.reportText (.array elements)
    s!"Name: {name}\tValue: {name}\tType: {Kind.array.label}\tArray Elements: {listed}\n"
  | value =>
    s!"Name: {name}\tValue: {value.render}\tType: {value.kind.label}\n"

/-- The report on all variables of a store. -/
def Store.report (store : Store) : String :=
  String.join (store.snapshot.map fun (name, held) => reportLine name held.value)

end LineScript
