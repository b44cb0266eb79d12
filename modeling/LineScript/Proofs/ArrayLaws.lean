/-
What is read from an array after it has been changed.  A value that was put at an
index is found there, and all other indices show what they showed before; a value
that was appended is the one that is taken out next.  The tokens may stand for the
same variable, since a token that stands for an index does not stand for an array,
and so no change of an array moves an index.
-/
import LineScript.Proofs.ArrayElements

namespace LineScript

section ElementAt

variable {elements : List Value} {index : Int64} {element : Value}

theorem elementAt_set_self (hold : elementAt elements index = .ok element)
    (value : Value) :
    elementAt (elements.set index.toInt.toNat value) index = .ok value := by
  obtain ⟨hindex, hfound⟩ := elementAt_eq_ok_iff.mp hold
  obtain ⟨hlength, _⟩ := List.getElem?_eq_some_iff.mp hfound
  exact elementAt_eq_ok_iff.mpr ⟨hindex, List.getElem?_set_self hlength⟩

/-- Two indices from zero on are at two places of the list. -/
theorem toNat_ne_of_ne {first second : Int64} (hdiffer : first ≠ second)
    (hfirst : ¬ first < 0) (hsecond : ¬ second < 0) :
    first.toInt.toNat ≠ second.toInt.toNat := by
  rw [Int64.lt_iff_toInt_lt, Int64.toInt_zero, Int.not_lt] at hfirst hsecond
  intro hsame
  apply hdiffer
  apply Int64.toInt_inj.mp
  omega

theorem elementAt_set_of_ne {other : Int64} (hother : other ≠ index)
    (hindex : ¬ index < 0) (value : Value) :
    elementAt (elements.set index.toInt.toNat value) other =
      elementAt elements other := by
  unfold elementAt
  by_cases hnegative : other < 0
  · simp [hnegative]
  · have hplace := toNat_ne_of_ne hother hnegative hindex
    simp only [hnegative, if_false, List.getElem?_set_ne hplace.symm,
      List.length_set]

theorem elementAt_append (hold : elementAt elements index = .ok element)
    (later : List Value) :
    elementAt (elements ++ later) index = .ok element := by
  obtain ⟨hindex, hfound⟩ := elementAt_eq_ok_iff.mp hold
  obtain ⟨hlength, _⟩ := List.getElem?_eq_some_iff.mp hfound
  refine elementAt_eq_ok_iff.mpr ⟨hindex, ?_⟩
  rw [List.getElem?_append_left hlength, hfound]

end ElementAt

namespace Expression

/-- The expression that reads an element of an array. -/
def elementOf (target index : String) : Expression :=
  { left := Word.arrayAt, middle := target, right := index }

/-- The expression that counts the elements of an array. -/
def lengthOf (target : String) : Expression :=
  { left := Word.arrayLength, middle := target }

/-- The expression that takes the last element out of an array. -/
def lastOf (target : String) : Expression :=
  { left := Word.arrayPop, middle := target }

end Expression

namespace Machine

/-- The parameters that the active call binds. -/
def parameters (machine : Machine) : List String :=
  (machine.bindings.headD []).map Prod.fst

theorem substitute_of_not_mem {machine : Machine} {token : String}
    (htoken : token ∉ machine.parameters) :
    machine.substitute token = token := by
  unfold substitute
  cases hbindings : machine.bindings with
  | nil => rfl
  | cons bound below =>
      have hunbound : bound.lookup token = none := by
        rw [List.lookup_eq_none_iff]
        intro entry hentry
        simp only [parameters, hbindings, List.headD_cons] at htoken
        simpa using ne_of_mem_of_not_mem (List.mem_map_of_mem hentry) htoken
          |>.symm
      simp [hunbound]

/-- None of the words that take a value out of an array is a parameter. -/
def KeepsSources (machine : Machine) : Prop :=
  ∀ token ∈ machine.parameters, isArraySource token = false

instance (machine : Machine) : Decidable machine.KeepsSources :=
  inferInstanceAs (Decidable (∀ token ∈ machine.parameters, _))

theorem KeepsSources.substitute_eq {machine : Machine}
    (hsources : machine.KeepsSources) {word : String}
    (hword : isArraySource word = true) : machine.substitute word = word := by
  apply substitute_of_not_mem
  intro hparameter
  rw [hsources word hparameter] at hword
  contradiction

/-- The token stands for the name of an array that can be changed. -/
def TargetsArray (machine : Machine) (target : String)
    (elements : List Value) : Prop :=
  machine.store.HoldsArray (machine.substitute target) elements

/-- The machine with other elements in the array that a token stands for. -/
def withElements (machine : Machine) (target : String)
    (elements : List Value) : Machine :=
  { machine with
    store := machine.store.setValue (machine.substitute target)
      (.array elements) }

theorem TargetsArray.withElements {machine : Machine} {target : String}
    {elements : List Value} (hholds : machine.TargetsArray target elements)
    (changed : List Value) :
    (machine.withElements target changed).TargetsArray target changed :=
  hholds.setValue changed

theorem KeepsSources.withElements {machine : Machine}
    (hsources : machine.KeepsSources) (target : String)
    (changed : List Value) :
    (machine.withElements target changed).KeepsSources :=
  hsources

theorem resolveIndex_eq_ok_iff {machine : Machine} {token : String}
    {index : Int64} :
    machine.resolveIndex token = .ok index ↔
      machine.resolve token = .int index := by
  unfold resolveIndex
  cases machine.resolve token <;> simp

section Changed

variable {machine : Machine} {target : String} {elements : List Value}
  {token : String}

/-- A token that stands for no array before an array is changed keeps its
value. -/
theorem resolve_withElements
    (hholds : machine.TargetsArray target elements)
    (htoken : (machine.resolve token).elements? = none)
    (changed : List Value) :
    (machine.withElements target changed).resolve token =
      machine.resolve token := by
  by_cases hempty : token = ""
  · simp [resolve, hempty]
  · have hother : machine.substitute token ≠ machine.substitute target := by
      intro hsame
      simp [resolve, hempty, hsame, hholds.value?_eq, Value.elements?] at htoken
    have hsubstitute : (machine.withElements target changed).substitute token =
        machine.substitute token := rfl
    have hvalue : (machine.withElements target changed).store.value?
        (machine.substitute token) =
          machine.store.value? (machine.substitute token) :=
      congrArg (Option.map Variable.value)
        (machine.store.get?_setValue_of_ne hother _)
    simp only [resolve, hempty, if_false, hsubstitute, hvalue]

/-- An index is the same index after an array is changed. -/
theorem resolve_withElements_int {index : Int64}
    (hholds : machine.TargetsArray target elements)
    (hindex : machine.resolve token = .int index) (changed : List Value) :
    (machine.withElements target changed).resolve token = .int index := by
  have hscalar : (machine.resolve token).elements? = none := by rw [hindex]; rfl
  rw [resolve_withElements hholds hscalar, hindex]

end Changed

section Expressions

variable {machine : Machine} {target : String} {elements : List Value}

theorem evaluate_elementOf {index : String} {place : Int64}
    (hsources : machine.KeepsSources)
    (hholds : machine.TargetsArray target elements)
    (hindex : machine.resolve index = .int place) (hint : Option Kind) :
    machine.evaluate (.elementOf target index) hint =
      (elementAt elements place).map (·, machine.store) := by
  have hword : machine.substitute Word.arrayAt = Word.arrayAt :=
    hsources.substitute_eq rfl
  simp only [evaluate, Expression.elementOf, hword, if_true, arrayElement,
    elements_of_holdsArray hholds, resolveIndex_eq_ok_iff.mpr hindex]
  cases helement : elementAt elements place <;>
    simp [helement, bind, Except.bind, Except.map, pure, Except.pure]

/-- Only a token that stands for an integer has an element. -/
theorem exists_of_evaluate_elementOf {index : String} {hint : Option Kind}
    {element : Value} {store : Store} (hsources : machine.KeepsSources)
    (hvalue : machine.evaluate (.elementOf target index) hint =
      .ok (element, store)) :
    ∃ place, machine.resolve index = .int place := by
  have hword : machine.substitute Word.arrayAt = Word.arrayAt :=
    hsources.substitute_eq rfl
  simp only [evaluate, Expression.elementOf, hword, if_true] at hvalue
  obtain ⟨_, helement, _⟩ := bind_eq_ok_iff.mp hvalue
  obtain ⟨place, hplace, _⟩ := bind_eq_ok_iff.mp helement
  exact ⟨place, resolveIndex_eq_ok_iff.mp hplace⟩

theorem evaluate_lengthOf (hsources : machine.KeepsSources)
    (hholds : machine.TargetsArray target elements)
    (hint : Option Kind) :
    machine.evaluate (.lengthOf target) hint =
      .ok (.int (Int64.ofNat elements.length), machine.store) := by
  have hword : machine.substitute Word.arrayLength = Word.arrayLength :=
    hsources.substitute_eq rfl
  have hother : Word.arrayLength ≠ Word.arrayAt := by decide
  simp [evaluate, Expression.lengthOf, hword, hother,
    elements_of_holdsArray hholds, bind, Except.bind, pure, Except.pure]

theorem evaluate_lastOf {front : List Value} {last : Value}
    (hsources : machine.KeepsSources)
    (hholds : machine.TargetsArray target (front ++ [last]))
    (hint : Option Kind) :
    machine.evaluate (.lastOf target) hint =
      .ok (last, machine.store.setValue (machine.substitute target)
        (.array front)) := by
  have hword : machine.substitute Word.arrayPop = Word.arrayPop :=
    hsources.substitute_eq rfl
  have hat : Word.arrayPop ≠ Word.arrayAt := by decide
  have hlength : Word.arrayPop ≠ Word.arrayLength := by decide
  simp [evaluate, Expression.lastOf, hword, hat, hlength, popElement,
    lastElement, elements_of_holdsArray hholds,
    changeElements_of_holdsArray _ hholds, bind, Except.bind, pure,
    Except.pure, Except.map]

/-- What is read at an index of the changed array is what the change put there,
since the index is the same as before. -/
theorem evaluate_elementOf_withElements {index : String} {place : Int64}
    (hsources : machine.KeepsSources)
    (hholds : machine.TargetsArray target elements)
    (hindex : machine.resolve index = .int place) (changed : List Value)
    (hint : Option Kind) :
    (machine.withElements target changed).evaluate (.elementOf target index)
        hint =
      (elementAt changed place).map
        (·, (machine.withElements target changed).store) :=
  evaluate_elementOf (hsources.withElements _ _) (hholds.withElements changed)
    (resolve_withElements_int hholds hindex changed) hint

theorem evaluate_lengthOf_withElements (hsources : machine.KeepsSources)
    (hholds : machine.TargetsArray target elements) (changed : List Value)
    (hint : Option Kind) :
    (machine.withElements target changed).evaluate (.lengthOf target) hint =
      .ok (.int (Int64.ofNat changed.length),
        (machine.withElements target changed).store) :=
  evaluate_lengthOf (hsources.withElements _ _) (hholds.withElements changed)
    hint

end Expressions

section Statements

variable {machine after : Machine} {statement : Statement} {target : String}
  {elements : List Value}

/-- A statement that has put a value had an index of the array. -/
theorem exists_of_setElement {index value : String}
    (hslots : statement.expression = .ofTokens [target, index, value])
    (hholds : machine.TargetsArray target elements)
    (hset : machine.setElement statement = .ok after) :
    ∃ place old, machine.resolve index = .int place ∧
      elementAt elements place = .ok old ∧
      after = machine.withElements target
        (elements.set place.toInt.toNat (machine.resolve value)) := by
  simp only [setElement, hslots, Expression.ofTokens] at hset
  obtain ⟨place, hplace, hrest⟩ := bind_eq_ok_iff.mp hset
  obtain ⟨store, hstore, hafter⟩ := bind_eq_ok_iff.mp hrest
  rw [changeElements_of_holdsArray _ hholds, map_eq_ok_iff] at hstore
  obtain ⟨changed, hchanged, rfl⟩ := hstore
  obtain ⟨old, hold, hchanged⟩ := bind_eq_ok_iff.mp hchanged
  rw [pure_eq_ok_iff] at hchanged hafter
  subst hchanged
  exact ⟨place, old, resolveIndex_eq_ok_iff.mp hplace, hold, hafter.symm⟩

theorem appendElement_of_holdsArray {value : String}
    (hslots : statement.expression = .ofTokens [target, value])
    (hholds : machine.TargetsArray target elements) :
    machine.appendElement statement =
      .ok (machine.withElements target
        (elements ++ [machine.resolve value])) := by
  simp only [appendElement, hslots, Expression.ofTokens,
    changeElements_of_holdsArray _ hholds]
  rfl

end Statements

/-- What an array shows after a value was put at an index. -/
structure PutLaws (before after : Machine) (target index value : String) :
    Prop where
  /-- The index shows what the value token stood for. -/
  put : ∀ hint, after.evaluate (.elementOf target index) hint =
    .ok (before.resolve value, after.store)
  /-- Any other index shows the same element, or fails in the same way. -/
  others : ∀ hint other place, before.resolve other = .int place →
    before.resolve index ≠ .int place →
    (after.evaluate (.elementOf target other) hint).map Prod.fst =
      (before.evaluate (.elementOf target other) hint).map Prod.fst
  length : ∀ hint, ∃ size,
    before.evaluate (.lengthOf target) hint = .ok (size, before.store) ∧
    after.evaluate (.lengthOf target) hint = .ok (size, after.store)

/-- Nothing can be told apart from what was there before. -/
structure Restores (before after : Store) : Prop where
  get? : ∀ name, after.get? name = before.get? name
  frameNames : after.frameNames = before.frameNames
  log : after.log = before.log
  /-- Where no two frames have a name in common, it is the very same store. -/
  eq : before.Sound → after = before

/-- What an array shows after a value was appended. -/
structure AppendLaws (before after : Machine) (target value : String) :
    Prop where
  length : ∀ hint, ∃ size : Nat,
    before.evaluate (.lengthOf target) hint =
      .ok (.int (Int64.ofNat size), before.store) ∧
    after.evaluate (.lengthOf target) hint =
      .ok (.int (Int64.ofNat (size + 1)), after.store)
  earlier : ∀ hint index element store,
    before.evaluate (.elementOf target index) hint = .ok (element, store) →
    after.evaluate (.elementOf target index) hint = .ok (element, after.store)
  /-- The value is taken out again, and with it all that the change did. -/
  last : ∀ hint, ∃ store,
    after.evaluate (.lastOf target) hint =
      .ok (before.resolve value, store) ∧
    Restores before.store store

section Laws

variable {machine : Machine} {target : String} {elements : List Value}

theorem restores_setValue {store : Store} {name : String}
    (hholds : store.HoldsArray name elements) (changed : Value) :
    Restores store
      ((store.setValue name changed).setValue name (.array elements)) := by
  rw [Store.setValue_setValue]
  refine ⟨fun other => ?_, Store.frameNames_modify _ _ _, rfl, fun hsound => ?_⟩
  · by_cases hother : other = name
    · subst hother
      rw [hholds.setValue elements, hholds]
    · exact store.get?_setValue_of_ne hother _
  · exact hsound.setValue_eq_self hholds

theorem putLaws_withElements {index value : String} {place : Int64}
    {old : Value} (hsources : machine.KeepsSources)
    (hholds : machine.TargetsArray target elements)
    (hindex : machine.resolve index = .int place)
    (hold : elementAt elements place = .ok old) :
    PutLaws machine
      (machine.withElements target
        (elements.set place.toInt.toNat (machine.resolve value)))
      target index value where
  put hint := by
    rw [evaluate_elementOf_withElements hsources hholds hindex,
      elementAt_set_self hold]
    rfl
  others hint other there hother hdiffer := by
    have hne : there ≠ place := by
      rintro rfl
      exact hdiffer hindex
    rw [evaluate_elementOf_withElements hsources hholds hother,
      evaluate_elementOf hsources hholds hother,
      elementAt_set_of_ne hne (elementAt_eq_ok_iff.mp hold).1]
    cases elementAt elements there <;> rfl
  length hint := by
    refine ⟨_, evaluate_lengthOf hsources hholds hint, ?_⟩
    rw [evaluate_lengthOf_withElements hsources hholds, List.length_set]

theorem appendLaws_withElements {value : String}
    (hsources : machine.KeepsSources)
    (hholds : machine.TargetsArray target elements) :
    AppendLaws machine
      (machine.withElements target
        (elements ++ [machine.resolve value]))
      target value where
  length hint := by
    refine ⟨_, evaluate_lengthOf hsources hholds hint, ?_⟩
    rw [evaluate_lengthOf_withElements hsources hholds, List.length_append,
      List.length_singleton]
  earlier hint index element store hvalue := by
    obtain ⟨place, hplace⟩ := exists_of_evaluate_elementOf hsources hvalue
    rw [evaluate_elementOf hsources hholds hplace, map_eq_ok_iff] at hvalue
    obtain ⟨found, hfound, hpair⟩ := hvalue
    obtain ⟨rfl, _⟩ := Prod.mk.inj hpair
    rw [evaluate_elementOf_withElements hsources hholds hplace,
      elementAt_append hfound]
    rfl
  last hint :=
    ⟨_, evaluate_lastOf (hsources.withElements _ _) (hholds.withElements _)
      hint, restores_setValue hholds _⟩

end Laws

/-- Let a target stand for an array that can be changed, and let none of the words
that read arrays be a parameter.  After a statement has put a value at an index of
the array or has appended it, the array shows just that change.  The tokens for
the index and the value are any tokens, the target among them. -/
theorem changed_array_shows_change {machine after : Machine}
    {statement : Statement} {budget : Nat} {target : String}
    {elements : List Value} (hsources : machine.KeepsSources)
    (hholds : machine.TargetsArray target elements)
    (hrun : runStatement budget statement machine =
      some (.ok .next, after)) :
    (∀ index value, statement.kind = .arraySet →
      statement.expression = .ofTokens [target, index, value] →
      PutLaws machine after target index value) ∧
    (∀ value, statement.kind = .arrayAppend →
      statement.expression = .ofTokens [target, value] →
      AppendLaws machine after target value) := by
  refine ⟨fun index value hkind hslots => ?_, fun value hkind hslots => ?_⟩
  · have hhandler : statement.kind.handler? = some .arraySet := by
      rw [hkind]
      rfl
    have hset : machine.setElement statement = .ok after :=
      change_of_runStatement hhandler rfl rfl hrun
    obtain ⟨place, old, hindex, hold, rfl⟩ :=
      exists_of_setElement hslots hholds hset
    exact putLaws_withElements hsources hholds hindex hold
  · have hhandler : statement.kind.handler? = some .arrayAppend := by
      rw [hkind]
      rfl
    have happend : machine.appendElement statement = .ok after :=
      change_of_runStatement hhandler rfl rfl hrun
    rw [appendElement_of_holdsArray hslots hholds, Except.ok.injEq] at happend
    subst happend
    exact appendLaws_withElements hsources hholds

/-- A call whose parameters stand for an array and for one of its indices. -/
def insideArrayCall : Machine where
  store :=
    { innermost := [("xs", ⟨.array [.int 5, .text "a"], false⟩)]
      outer := [[("one", ⟨.int 1, true⟩)]] }
  bindings := [[("p", "xs"), ("i", "one")]]
  calls := 1

/-- Puts an array into itself. -/
def putsItself : Statement where
  kind := .arraySet
  line := ["$array_set", "p", "i", "xs"]
  lineNo := 1
  expression := .ofTokens ["p", "i", "xs"]

/-- Appends an array to itself. -/
def appendsItself : Statement where
  kind := .arrayAppend
  line := ["$array_append", "p", "p"]
  lineNo := 2
  expression := .ofTokens ["p", "p"]

theorem putsItself_and_appendsItself_show_change :
    insideArrayCall.KeepsSources ∧
    insideArrayCall.TargetsArray "p" [.int 5, .text "a"] ∧
    ∃ put appended,
      runStatement 1 putsItself insideArrayCall = some (.ok .next, put) ∧
      runStatement 1 appendsItself insideArrayCall =
        some (.ok .next, appended) ∧
      put.evaluate (.elementOf "p" "i") none =
        .ok (.array [.int 5, .text "a"], put.store) ∧
      appended.evaluate (.lastOf "p") none =
        .ok (.array [.int 5, .text "a"], insideArrayCall.store) := by
  have hsources : insideArrayCall.KeepsSources := by decide
  have hholds : insideArrayCall.TargetsArray "p" [.int 5, .text "a"] := rfl
  have hput : runStatement 1 putsItself insideArrayCall =
      some (.ok .next, insideArrayCall.withElements "p"
        [.int 5, .array [.int 5, .text "a"]]) := rfl
  have happended : runStatement 1 appendsItself insideArrayCall =
      some (.ok .next, insideArrayCall.withElements "p"
        [.int 5, .text "a", .array [.int 5, .text "a"]]) := rfl
  have hsound : insideArrayCall.store.Sound := by
    refine ⟨by decide, by decide⟩
  have hputs :=
    (changed_array_shows_change hsources hholds hput).1 "i" "xs" rfl rfl
  have happends :=
    (changed_array_shows_change hsources hholds happended).2 "p" rfl rfl
  obtain ⟨store, hlast, hrestores⟩ := happends.last none
  rw [hrestores.eq hsound] at hlast
  exact ⟨hsources, hholds, _, _, hput, happended, hputs.put none, hlast⟩

end Machine

end LineScript
