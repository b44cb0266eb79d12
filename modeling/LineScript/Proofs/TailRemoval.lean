/-
Removing elements from the end of an array.  The statement removes all elements
if the last one is an array with elements; otherwise as many as a second array
has, if one with elements is named, and otherwise one.  So at least one element
is removed from an array that has any, and never more than it has.
-/
import LineScript.Proofs.ArrayElements

namespace LineScript

/-- The last element is itself an array with elements. -/
def EndsNested (elements : List Value) : Prop :=
  ∃ inner, elements.getLast? = some (.array inner) ∧ inner ≠ []

namespace Machine

/-- The token stands for the name of an array with this many elements, and it
has elements. -/
structure Asks (machine : Machine) (token : String) (size : Nat) : Prop where
  given : token ≠ ""
  named : ∃ elements constant,
    machine.store.get? (machine.substitute token) =
      some ⟨.array elements, constant⟩ ∧ elements.length = size
  positive : 1 ≤ size

/-- The number of elements to remove from the end of an array. -/
structure TailCount (machine : Machine) (source : String)
    (elements : List Value) (count : Nat) : Prop where
  nested : EndsNested elements → count = elements.length
  asked : ¬ EndsNested elements →
    ∀ size, machine.Asks source size → count = min size elements.length
  single : ¬ EndsNested elements →
    (∀ size, ¬ machine.Asks source size) → count = 1
  positive : 1 ≤ count
  bounded : count ≤ elements.length

/-- The size that a second array asks for. -/
def askedSize (machine : Machine) (token : String) : Option Nat :=
  match machine.resolve token with
  | .array (first :: later) => some (first :: later).length
  | _ => none

theorem resolve_eq_array_iff {machine : Machine} {token : String}
    {elements : List Value} :
    machine.resolve token = .array elements ↔
      token ≠ "" ∧ ∃ constant,
        machine.store.get? (machine.substitute token) =
          some ⟨.array elements, constant⟩ := by
  by_cases hempty : token = ""
  · simp [resolve, hempty]
  · cases hheld : machine.store.get? (machine.substitute token) with
    | none =>
        simp [resolve, hempty, Store.value?, hheld, ofLiteral_ne_array]
    | some held =>
        obtain ⟨value, constant⟩ := held
        simp [resolve, hempty, Store.value?, hheld]

theorem askedSize_eq_some_iff {machine : Machine} {token : String}
    {size : Nat} :
    machine.askedSize token = some size ↔ machine.Asks token size := by
  constructor
  · intro hasked
    unfold askedSize at hasked
    split at hasked
    · next first later hresolve =>
      obtain rfl := Option.some.inj hasked
      obtain ⟨hgiven, constant, hheld⟩ := resolve_eq_array_iff.mp hresolve
      exact ⟨hgiven, ⟨_, constant, hheld, rfl⟩, Nat.succ_pos _⟩
    · contradiction
  · rintro ⟨hgiven, ⟨elements, constant, hheld, rfl⟩, hpositive⟩
    have hresolve := resolve_eq_array_iff.mpr ⟨hgiven, constant, hheld⟩
    cases elements with
    | nil => contradiction
    | cons first later => rw [askedSize, hresolve]

theorem popCount_of_not_nested {last : Value}
    (hlast : ∀ inner, last = .array inner → inner = []) (size : Nat)
    (asked : Option Nat) :
    popCount size last asked = min (asked.getD 1) size := by
  unfold popCount
  split
  · next first later => exact absurd (hlast _ rfl) (List.cons_ne_nil _ _)
  · rfl

theorem tailCount_popCount (machine : Machine) (source : String)
    {elements : List Value} {last : Value}
    (hlast : elements.getLast? = some last) :
    machine.TailCount source elements
      (popCount elements.length last (machine.askedSize source)) := by
  have hsize : 1 ≤ elements.length := by
    rw [List.getLast?_eq_some_iff] at hlast
    obtain ⟨front, rfl⟩ := hlast
    simp
  by_cases hnested : EndsNested elements
  · obtain ⟨inner, hinner, hfilled⟩ := hnested
    rw [hlast, Option.some.injEq] at hinner
    subst hinner
    obtain ⟨first, later, rfl⟩ := List.exists_cons_of_ne_nil hfilled
    exact ⟨fun _ => rfl, fun hflat => absurd ⟨_, hlast, hfilled⟩ hflat,
      fun hflat => absurd ⟨_, hlast, hfilled⟩ hflat, hsize, Nat.le_refl _⟩
  · have hflat : ∀ inner, last = .array inner → inner = [] := by
      rintro inner rfl
      by_contra hfilled
      exact hnested ⟨inner, hlast, hfilled⟩
    rw [popCount_of_not_nested hflat]
    refine ⟨fun hfilled => absurd hfilled hnested, fun _ size hasks => ?_,
      fun _ hnone => ?_, ?_, Nat.min_le_right _ _⟩
    · rw [askedSize_eq_some_iff.mpr hasks]
      rfl
    · have hasked : machine.askedSize source = none := by
        rw [Option.eq_none_iff_forall_ne_some]
        exact fun size hsome => hnone size (askedSize_eq_some_iff.mp hsome)
      rw [hasked]
      exact Nat.min_eq_left hsize
    · cases hasked : machine.askedSize source with
      | none => exact Nat.le_min.mpr ⟨Nat.le_refl _, hsize⟩
      | some size =>
          have hasks := askedSize_eq_some_iff.mp hasked
          exact Nat.le_min.mpr ⟨hasks.positive, hsize⟩

section Removal

variable {machine : Machine} {statement : Statement} {name : String}
  (hname : machine.substitute statement.expression.left = name)

include hname

theorem removeElements_of_error {fault : Fault}
    (herror : machine.elements name = .error fault) :
    machine.removeElements statement = .error fault := by
  simp only [removeElements, hname, changeElements_of_error _ herror]
  rfl

theorem removeElements_of_constant {elements : List Value}
    (hheld : machine.store.get? name = some ⟨.array elements, true⟩) :
    machine.removeElements statement = .ok machine := by
  simp only [removeElements, hname, changeElements_of_constant _ hheld]
  rfl

theorem removeElements_of_empty
    (hholds : machine.store.HoldsArray name []) :
    machine.removeElements statement = .error (.emptyArray name) := by
  simp only [removeElements, hname, changeElements_of_holdsArray _ hholds]
  rfl

theorem removeElements_of_getLast? {elements : List Value} {last : Value}
    (hholds : machine.store.HoldsArray name elements)
    (hlast : elements.getLast? = some last) :
    machine.removeElements statement =
      let count := popCount elements.length last
        (machine.askedSize statement.expression.middle)
      let shorter := elements.take (elements.length - count)
      .ok { machine with
        store := machine.store.setValue name (.array shorter) } := by
  simp only [removeElements, hname, changeElements_of_holdsArray _ hholds,
    hlast]
  rfl

end Removal

/-- An array that cannot be changed keeps its elements, empty or not; where there
is no array or no element, the statement fails and leaves the machine as it was.
Everywhere else it removes elements from the end of the array and does nothing
else. -/
theorem arrayPop_removes_tail (machine : Machine) (statement : Statement)
    (hkind : statement.kind = .arrayPop) (budget : Nat) :
    let name := machine.substitute statement.expression.left
    let outcome := runStatement (budget + 1) statement machine
    (machine.store.HoldsArray name [] →
      outcome = some
        (.error ⟨.emptyArray name, some statement.lineNo⟩, machine)) ∧
    (∀ elements, machine.store.HoldsArray name elements → elements ≠ [] →
      ∃ count store,
        machine.TailCount statement.expression.middle elements count ∧
        outcome = some (.ok .next, { machine with store }) ∧
        store.HoldsArray name (elements.take (elements.length - count)) ∧
        machine.store.Rewrites [name] store) ∧
    (∀ elements,
      machine.store.get? name = some ⟨.array elements, true⟩ →
      outcome = some (.ok .next, machine)) ∧
    (machine.store.get? name = none →
      outcome = some
        (.error ⟨.undefinedVariable name, some statement.lineNo⟩, machine)) ∧
    (∀ held, machine.store.get? name = some held →
      held.value.elements? = none →
      outcome = some
        (.error ⟨.notAnArray name, some statement.lineNo⟩, machine)) := by
  intro name outcome
  have hhandler : statement.kind.handler? = some .arrayPop := by
    rw [hkind]
    rfl
  have houtcome : outcome =
      some (machine.committed statement (machine.removeElements statement)) :=
    runStatement_of_commit hhandler rfl rfl budget
  rw [houtcome]
  refine ⟨fun hholds => ?_, fun elements hholds hfilled => ?_,
    fun elements hheld => ?_, fun habsent => ?_, fun held hheld hscalar => ?_⟩
  · rw [removeElements_of_empty rfl hholds]
    rfl
  · obtain ⟨last, hlast⟩ :=
      Option.ne_none_iff_exists'.mp (mt List.getLast?_eq_none_iff.mp hfilled)
    rw [removeElements_of_getLast? rfl hholds hlast]
    exact ⟨_, _, tailCount_popCount machine _ hlast, rfl, hholds.setValue _,
      .modify List.mem_cons_self _⟩
  · rw [removeElements_of_constant rfl hheld]
    rfl
  · rw [removeElements_of_error rfl (elements_of_absent habsent)]
    rfl
  · have herror : machine.elements name = .error (.notAnArray name) := by
      rw [elements_of_get? hheld, hscalar]
    rw [removeElements_of_error rfl herror]
    rfl

/-- Two arrays, the second as long as the first is to become short. -/
def twoArrays : Machine where
  store :=
    { innermost :=
        [("xs", ⟨.array [.int 1, .int 2, .int 3], false⟩),
          ("ys", ⟨.array [.bool true, .bool false], true⟩)] }

/-- Removes from the first as many elements as the second has. -/
def removesTwo : Statement where
  kind := .arrayPop
  line := ["$array_pop", "xs", "ys"]
  lineNo := 3
  expression := .ofTokens ["xs", "ys"]

theorem removesTwo_removes_tail :
    removesTwo.kind = .arrayPop ∧ ∃ store,
      runStatement 1 removesTwo twoArrays =
        some (.ok .next, { twoArrays with store }) ∧
      store.HoldsArray "xs" [.int 1] := by
  have hholds : twoArrays.store.HoldsArray "xs" [.int 1, .int 2, .int 3] := rfl
  have hflat : ¬ EndsNested [.int 1, .int 2, .int 3] := by
    rintro ⟨inner, hinner, _⟩
    cases hinner
  have hasks : twoArrays.Asks "ys" 2 :=
    ⟨by decide, ⟨_, true, rfl, rfl⟩, by decide⟩
  obtain ⟨_, hremoves, _⟩ :=
    arrayPop_removes_tail twoArrays removesTwo rfl 0
  obtain ⟨count, store, hcount, hrun, hshorter, _⟩ :=
    hremoves _ hholds (List.cons_ne_nil _ _)
  obtain rfl := hcount.asked hflat 2 hasks
  exact ⟨rfl, store, hrun, hshorter⟩

end Machine

end LineScript
