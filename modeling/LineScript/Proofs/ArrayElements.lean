/-
The elements of arrays.  What a function on arrays does is decided by what the
store holds under the name: nothing, a value that is no array, a constant array,
or an array that can be changed.  A changed array is seen under its own name
only, and writing back what it held before brings the old store back.
-/
import LineScript.Proofs.StatementFrame

namespace LineScript

namespace Frame

theorem modify_modify (frame : Frame) (name : String)
    (first second : Variable → Variable) :
    (frame.modify name first).modify name second =
      frame.modify name (second ∘ first) := by
  induction frame with
  | nil => rfl
  | cons entry later ih =>
      obtain ⟨other, held⟩ := entry
      by_cases hname : other = name
      · simpa [modify, hname] using ih
      · simpa [modify, hname] using ih

/-- A change that changes nothing that the frame holds under the name. -/
theorem modify_eq_self {frame : Frame} {name : String}
    {change : Variable → Variable}
    (hkeeps : ∀ held, (name, held) ∈ frame → change held = held) :
    frame.modify name change = frame := by
  conv_rhs => rw [← List.map_id frame]
  apply List.map_congr_left
  rintro ⟨other, held⟩ hentry
  by_cases hname : other = name
  · subst hname
    simp [hkeeps held hentry]
  · simp [hname]

end Frame

namespace Store

/-- The name is that of an array that can be changed. -/
def HoldsArray (store : Store) (name : String) (elements : List Value) : Prop :=
  store.get? name = some ⟨.array elements, false⟩

theorem HoldsArray.value?_eq {store : Store} {name : String}
    {elements : List Value} (hholds : store.HoldsArray name elements) :
    store.value? name = some (.array elements) := by
  rw [value?, hholds]
  rfl

theorem get?_setValue_of_ne (store : Store) {name other : String}
    (hother : other ≠ name) (value : Value) :
    (store.setValue name value).get? other = store.get? other := by
  rw [setValue, get?_modify, if_neg hother]

theorem HoldsArray.setValue {store : Store} {name : String}
    {elements : List Value} (hholds : store.HoldsArray name elements)
    (changed : List Value) :
    (store.setValue name (.array changed)).HoldsArray name changed := by
  rw [HoldsArray, Store.setValue, get?_modify, if_pos rfl, hholds]
  rfl

/-- A name that was free is declared. -/
theorem get?_declare {store : Store} {name : String}
    (habsent : store.get? name = none) (fresh : Variable) (other : String) :
    (store.declare name fresh).get? other =
      if other = name then some fresh else store.get? other := by
  cases hdeclare : store.declare? name fresh with
  | none =>
      simp [declare?, contains_eq_false_iff.mpr habsent] at hdeclare
  | some after =>
      rw [declare, hdeclare]
      exact get?_of_declare? hdeclare other

/-- The later of two writes counts. -/
theorem setValue_setValue (store : Store) (name : String)
    (first second : Value) :
    (store.setValue name first).setValue name second =
      store.setValue name second := by
  simp [setValue, modify, Frame.modify_modify, Function.comp_def]

/-- Writing what a variable holds changes nothing, since no other frame has its
name. -/
theorem Sound.setValue_eq_self {store : Store} (hsound : store.Sound)
    {name : String} {held : Variable} (hheld : store.get? name = some held) :
    store.setValue name held.value = store := by
  have hframe : ∀ frame ∈ store.frames,
      frame.modify name (fun found => { found with value := held.value }) =
        frame := by
    intro frame hframe
    apply Frame.modify_eq_self
    intro found hfound
    have hentry : (name, found) ∈ store.entries :=
      List.mem_flatten_of_mem hframe hfound
    rw [← Frame.get?_eq_some_iff hsound.distinct, ← get?_eq_entries, hheld,
      Option.some.injEq] at hentry
    rw [hentry]
  have hinner := hframe store.innermost List.mem_cons_self
  have houter : store.outer.map (fun frame => frame.modify name
      fun found => { found with value := held.value }) = store.outer := by
    conv_rhs => rw [← List.map_id store.outer]
    exact List.map_congr_left fun frame hmem =>
      hframe frame (List.mem_cons_of_mem _ hmem)
  rw [setValue, Store.modify, hinner, houter]

end Store

namespace Machine

section Elements

variable {machine : Machine} {name : String}

theorem elements_of_absent (habsent : machine.store.get? name = none) :
    machine.elements name = .error (.undefinedVariable name) := by
  simp [elements, lookup, habsent, bind, Except.bind]

theorem elements_of_get? {held : Variable}
    (hheld : machine.store.get? name = some held) :
    machine.elements name =
      match held.value.elements? with
      | some elements => .ok elements
      | none => .error (.notAnArray name) := by
  obtain ⟨value, constant⟩ := held
  cases value <;>
    simp [elements, lookup, hheld, Value.elements?, bind, Except.bind]

theorem elements_of_holdsArray {elements : List Value}
    (hholds : machine.store.HoldsArray name elements) :
    machine.elements name = .ok elements :=
  elements_of_get? hholds

theorem value?_of_elements {elements : List Value}
    (helements : machine.elements name = .ok elements) :
    machine.store.value? name = some (.array elements) := by
  cases hheld : machine.store.get? name with
  | none => simp [elements_of_absent hheld] at helements
  | some held =>
      obtain ⟨value, constant⟩ := held
      rw [elements_of_get? hheld] at helements
      cases value <;> simp_all [Value.elements?, Store.value?]

theorem exists_of_arrayElement {source index : String} {element : Value}
    (helement : machine.arrayElement source index = .ok element) :
    ∃ outer, element ∈ outer ∧
      machine.store.value? (machine.substitute source) =
        some (.array outer) := by
  obtain ⟨place, _, hrest⟩ := bind_eq_ok_iff.mp helement
  obtain ⟨outer, houter, hfound⟩ := bind_eq_ok_iff.mp hrest
  exact ⟨outer, List.mem_of_getElem? (elementAt_eq_ok_iff.mp hfound).2,
    value?_of_elements houter⟩

theorem exists_of_lastElement {name : String} {element : Value}
    (helement : machine.lastElement name = .ok element) :
    ∃ outer, element ∈ outer ∧
      machine.store.value? name = some (.array outer) := by
  obtain ⟨outer, houter, hlast⟩ := bind_eq_ok_iff.mp helement
  refine ⟨outer, ?_, value?_of_elements houter⟩
  cases hfound : outer.getLast? with
  | none => simp [hfound] at hlast
  | some last =>
      rw [hfound, Except.ok.injEq] at hlast
      exact hlast ▸ List.mem_of_getLast? hfound

variable (change : List Value → Except Fault (List Value))

/-- Where there is no array, the change is not tried. -/
theorem changeElements_of_error {fault : Fault}
    (herror : machine.elements name = .error fault) :
    machine.changeElements name change = .error fault := by
  cases hlookup : machine.lookup name with
  | error other =>
      simpa [elements, changeElements, hlookup, bind, Except.bind] using herror
  | ok held => simp [changeElements, hlookup, herror, bind, Except.bind]

theorem changeElements_of_constant {elements : List Value}
    (hheld : machine.store.get? name = some ⟨.array elements, true⟩) :
    machine.changeElements name change = .ok machine.store := by
  have helements : machine.elements name = .ok elements :=
    elements_of_get? hheld
  simp [changeElements, lookup_eq_ok_iff.mpr hheld, helements, bind,
    Except.bind, pure, Except.pure]

theorem changeElements_of_holdsArray {elements : List Value}
    (hholds : machine.store.HoldsArray name elements) :
    machine.changeElements name change =
      (change elements).map fun changed =>
        machine.store.setValue name (.array changed) := by
  have helements := elements_of_holdsArray hholds
  simp only [changeElements, lookup_eq_ok_iff.mpr hholds, helements, bind,
    Except.bind, Bool.false_eq_true, if_false]
  cases change elements <;> rfl

end Elements

/-- The outcome of a statement whose change is taken over. -/
def committed (machine : Machine) (statement : Statement) :
    Except Fault Machine → Outcome
  | .ok changed => (.ok .next, changed)
  | .error fault => (.error ⟨fault, some statement.lineNo⟩, machine)

theorem runStatement_of_commit {machine : Machine} {statement : Statement}
    {handler : Handler} {change : Except Fault Machine}
    (hhandler : statement.kind.handler? = some handler)
    (hsimple : handler.isSimple = true)
    (hperform : machine.perform statement handler = machine.commit change)
    (budget : Nat) :
    runStatement (budget + 1) statement machine =
      some (machine.committed statement change) := by
  rw [runStatement_of_isSimple hhandler hsimple, performed, hperform]
  cases change <;> rfl

/-- A statement that succeeds has made its change. -/
theorem change_of_runStatement {machine after : Machine}
    {statement : Statement} {handler : Handler}
    {change : Except Fault Machine} {budget : Nat}
    (hhandler : statement.kind.handler? = some handler)
    (hsimple : handler.isSimple = true)
    (hperform : machine.perform statement handler = machine.commit change)
    (hrun : runStatement budget statement machine =
      some (.ok .next, after)) :
    change = .ok after := by
  cases budget with
  | zero => contradiction
  | succ budget =>
      rw [runStatement_of_commit hhandler hsimple hperform,
        Option.some.injEq] at hrun
      cases change with
      | error fault => simp [committed] at hrun
      | ok changed =>
          rw [committed, Prod.mk.injEq] at hrun
          rw [hrun.2]

end Machine

end LineScript
