/-
Changing variables in place.  The statements that only change variables are
written here as programs on a store: such a program looks at the store and writes
to it step by step, and a failure takes nothing back.  On every machine it has the
outcome of the statement, which leaves the store alone when it fails; so no step
fails after a write.  A program knows nothing of a machine but the store and the
bindings, and neither does the statement.
-/
import LineScript.Proofs.StatementEffect

namespace LineScript

/-- Handlers that look at variables and write to variables, and do nothing
else. -/
def Handler.onlyVariables : Handler → Bool
  | declare | arrayDeclare | arrayAppend | arraySet | arrayPop | assign => true
  | _ => false

/-- A program that looks at a store and writes to it, step by step.  A failure
takes nothing back that was written before. -/
abbrev InPlace (α : Type) := ExceptT Fault (StateM Store) α

namespace InPlace

variable {α β : Type}

/-- Runs a program on a store. -/
def on (program : InPlace α) (store : Store) : Except Fault α × Store :=
  program.run.run store

/-- Looks at the store as it is now, under some bindings. -/
def look (bindings : List Bindings) (view : Machine → Except Fault α) :
    InPlace α :=
  ExceptT.mk fun store => (view { store, bindings }, store)

def write (change : Store → Store) : InPlace Unit :=
  modify change

/-- The token that a token stands for under some bindings. -/
def meant (bindings : List Bindings) (token : String) : String :=
  ({ bindings } : Machine).substitute token

/-- The name that a statement declares or changes under some bindings. -/
def target (bindings : List Bindings) (statement : Statement) : String :=
  ({ bindings } : Machine).targetName statement

/-- Changes the elements of an array.  A constant array stays as it is. -/
def changeElements (bindings : List Bindings) (name : String)
    (change : List Value → Except Fault (List Value)) : InPlace Unit := do
  let held ← look bindings (·.lookup name)
  let elements ← look bindings (·.elements name)
  if held.constant then
    return ()
  else
    let changed ← look bindings fun _ => change elements
    write (·.setValue name (.array changed))

/-- Takes the last element out of an array.  Where an array is asked for, the
element is looked at first. -/
def popElement (bindings : List Bindings) (name : String)
    (wantsArray : Bool) : InPlace Value := do
  let element ← look bindings (·.lastElement name)
  if wantsArray && element.elements?.isNone then
    throw (.notAnArray s!"tail of {name}")
  else
    changeElements bindings name fun elements => .ok elements.dropLast
    return element

/-- The value of an expression.  Only taking an element out of an array writes
to the store. -/
def evaluate (bindings : List Bindings) (expression : Expression)
    (hint : Option Kind) : InPlace Value :=
  if meant bindings expression.left = Word.arrayPop then
    popElement bindings (meant bindings expression.middle) false
  else
    look bindings fun machine =>
      (machine.evaluate expression hint).map Prod.fst

/-- The elements of a declared array.  The last failure would come after a
write. -/
def initialElements (bindings : List Bindings) (expression : Expression) :
    InPlace (List Value) := do
  if meant bindings expression.left = Word.arrayPop then
    let name := meant bindings expression.middle
    match ← popElement bindings name true with
    | .array elements => return elements
    | _ => throw (.notAnArray name)
  else
    look bindings fun machine =>
      (machine.initialElements expression).map Prod.fst

/-- Declares the target of a statement, unless its name is taken. -/
def declareTarget (bindings : List Bindings) (statement : Statement)
    (initial : InPlace α) (fresh : α → Variable) : InPlace Unit := do
  let name := target bindings statement
  if ← look bindings fun machine => .ok (machine.store.contains name) then
    return ()
  else
    let value ← initial
    write (·.declare name (fresh value))

def assign (bindings : List Bindings) (statement : Statement) :
    InPlace Unit := do
  let name := target bindings statement
  let held ← look bindings (·.lookup name)
  if held.constant then
    return ()
  else
    let kind := held.value.kind
    let value ← evaluate bindings statement.expression (some kind)
    write (·.setValue name (Machine.keepDouble kind value))

def appendElement (bindings : List Bindings) (statement : Statement) :
    InPlace Unit := do
  let value ← look bindings fun machine =>
    .ok (machine.resolve statement.expression.middle)
  changeElements bindings (meant bindings statement.expression.left)
    fun elements => .ok (elements ++ [value])

def setElement (bindings : List Bindings) (statement : Statement) :
    InPlace Unit := do
  let index ← look bindings (·.resolveIndex statement.expression.middle)
  let value ← look bindings fun machine =>
    .ok (machine.resolve statement.expression.right)
  changeElements bindings (meant bindings statement.expression.left)
    fun elements => do
      let _ ← elementAt elements index
      return elements.set index.toInt.toNat value

def removeElements (bindings : List Bindings) (statement : Statement) :
    InPlace Unit := do
  let name := meant bindings statement.expression.left
  let asked ← look bindings fun machine => .ok <|
    match machine.resolve statement.expression.middle with
    | .array (first :: later) => some (first :: later).length
    | _ => none
  changeElements bindings name fun elements =>
    match elements.getLast? with
    | none => .error (.emptyArray name)
    | some last =>
      let size := elements.length
      .ok (elements.take (size - popCount size last asked))

/-- The program of a statement that only changes variables. -/
def perform (bindings : List Bindings) (statement : Statement) :
    Handler → InPlace Unit
  | .declare =>
    declareTarget bindings statement
      (evaluate bindings statement.expression none)
      fun value => ⟨value, statement.kind = .constant⟩
  | .arrayDeclare =>
    declareTarget bindings statement
      (initialElements bindings statement.expression)
      fun elements => ⟨.array elements, false⟩
  | .arrayAppend => appendElement bindings statement
  | .arraySet => setElement bindings statement
  | .arrayPop => removeElements bindings statement
  | .assign => assign bindings statement
  | _ => return ()

theorem on_pure (value : α) (store : Store) :
    on (pure value) store = (.ok value, store) :=
  rfl

theorem on_look (bindings : List Bindings)
    (view : Machine → Except Fault α) (store : Store) :
    on (look bindings view) store = (view { store, bindings }, store) :=
  rfl

theorem on_write (change : Store → Store) (store : Store) :
    on (write change) store = (.ok (), change store) :=
  rfl

theorem on_bind (first : InPlace α) (next : α → InPlace β) (store : Store) :
    on (first >>= next) store =
      match on first store with
      | (.ok value, after) => on (next value) after
      | (.error fault, after) => (.error fault, after) := by
  unfold on ExceptT.run StateT.run
  simp only [bind, ExceptT.bind, ExceptT.mk, StateT.bind]
  rcases first store with ⟨_ | _, after⟩
  · rfl
  · rfl

/-- The outcome of a change that leaves the store alone when it fails. -/
def settled (store : Store) :
    Except Fault (α × Store) → Except Fault α × Store
  | .ok (value, after) => (.ok value, after)
  | .error fault => (.error fault, store)

/-- On the store of a machine, a program has the outcome of a change that leaves
the store alone when it fails. -/
def Settles (machine : Machine) (program : InPlace α)
    (change : Except Fault (α × Store)) : Prop :=
  on program machine.store = settled machine.store change

namespace Settles

variable {machine : Machine}

/-- A look that succeeds is passed over. -/
theorem look_ok {view : Machine → Except Fault α} {value : α}
    {next : α → InPlace β} {change : Except Fault (β × Store)}
    (hview : view { store := machine.store, bindings := machine.bindings } =
      .ok value)
    (hnext : Settles machine (next value) change) :
    Settles machine (look machine.bindings view >>= next) change := by
  unfold Settles
  rw [on_bind, on_look, hview]
  exact hnext

theorem look_bind {view : Machine → Except Fault α} {result : Except Fault α}
    {next : α → InPlace β} {change : α → Except Fault (β × Store)}
    (hview : view { store := machine.store, bindings := machine.bindings } =
      result)
    (hnext : ∀ value, result = .ok value →
      Settles machine (next value) (change value)) :
    Settles machine (look machine.bindings view >>= next)
      (result >>= change) := by
  cases result with
  | error fault =>
      unfold Settles
      rw [on_bind, on_look, hview]
      rfl
  | ok value => exact .look_ok hview (hnext value rfl)

/-- A change that turns out to leave the store alone is only a look. -/
theorem look_fst {view : Machine → Except Fault (α × Store)}
    {change : Except Fault (α × Store)}
    (hview : view { store := machine.store, bindings := machine.bindings } =
      change)
    (hstore : ∀ value after, change = .ok (value, after) →
      after = machine.store) :
    Settles machine
      (look machine.bindings fun seen => (view seen).map Prod.fst) change := by
  unfold Settles
  rw [on_look, hview]
  rcases change with fault | ⟨value, after⟩
  · rfl
  · rw [hstore value after rfl]
    rfl

/-- What comes after a write must not fail any more. -/
theorem bind_ok {program : InPlace α} {change : Except Fault (α × Store)}
    {next : α → InPlace β} (later : α × Store → β × Store)
    (hprogram : Settles machine program change)
    (hnext : ∀ value after, on (next value) after =
      (.ok (later (value, after)).1, (later (value, after)).2)) :
    Settles machine (program >>= next)
      (change >>= fun changed => pure (later changed)) := by
  unfold Settles at hprogram ⊢
  rw [on_bind, hprogram]
  rcases change with fault | ⟨value, after⟩
  · rfl
  · exact hnext value after

end Settles

section Parts

variable (machine : Machine)

theorem changeElements_settles (name : String)
    (change : List Value → Except Fault (List Value)) :
    Settles machine (changeElements machine.bindings name change)
      (machine.changeElements name change >>= fun after =>
        pure ((), after)) := by
  simp only [Machine.changeElements, bind_assoc]
  refine .look_bind rfl fun held _ => .look_bind rfl fun elements _ => ?_
  split
  · rfl
  · simp only [bind_assoc]
    exact .look_bind rfl fun changed _ => rfl

theorem changeElements_pure_settles (name : String)
    (change : List Value → Except Fault (List Value)) (value : α) :
    Settles machine
      (changeElements machine.bindings name change >>= fun _ => pure value)
      (machine.changeElements name change >>= fun after =>
        pure (value, after)) := by
  have hchange := changeElements_settles machine name change
  have hpure := hchange.bind_ok (fun changed => (value, changed.2))
    fun _ after => on_pure value after
  simpa only [bind_assoc, pure_bind] using hpure

theorem popElement_settles (name : String) :
    Settles machine (popElement machine.bindings name false)
      (machine.popElement name) := by
  refine .look_bind rfl fun element _ => ?_
  exact changeElements_pure_settles machine name _ element

/-- An expression that takes nothing out of an array leaves the store alone. -/
theorem store_of_evaluate {expression : Expression} {hint : Option Kind}
    {value : Value} {store : Store}
    (hsource : machine.substitute expression.left ≠ Word.arrayPop)
    (hvalue : machine.evaluate expression hint = .ok (value, store)) :
    store = machine.store := by
  simp only [Machine.evaluate, if_neg hsource] at hvalue
  split at hvalue
  · exact store_eq_of_bind_pure hvalue
  · split at hvalue
    · exact store_eq_of_bind_pure hvalue
    · exact store_eq_of_bind_pure hvalue

theorem evaluate_settles (expression : Expression) (hint : Option Kind) :
    Settles machine (evaluate machine.bindings expression hint)
      (machine.evaluate expression hint) := by
  unfold evaluate
  change Settles machine
    (if machine.substitute expression.left = Word.arrayPop then _ else _) _
  split
  · next hsource =>
    have hpop : machine.evaluate expression hint =
        machine.popElement (machine.substitute expression.middle) := by
      simp only [Machine.evaluate, hsource]
      rfl
    rw [hpop]
    exact popElement_settles machine _
  · next hsource =>
    exact .look_fst rfl fun _ _ => store_of_evaluate machine hsource

theorem store_of_initialElements {expression : Expression}
    {elements : List Value} {store : Store}
    (hsource : machine.substitute expression.left ≠ Word.arrayPop)
    (hinitial : machine.initialElements expression = .ok (elements, store)) :
    store = machine.store := by
  simp only [Machine.initialElements, if_neg hsource] at hinitial
  split at hinitial
  · obtain ⟨element, _, hrest⟩ := bind_eq_ok_iff.mp hinitial
    cases element with
    | array inner =>
        rw [pure_eq_ok_iff, Prod.mk.injEq] at hrest
        exact hrest.2.symm
    | _ => simp at hrest
  · rw [pure_eq_ok_iff, Prod.mk.injEq] at hinitial
    exact hinitial.2.symm

/-- The element is known to be an array before it is taken out, so the failure
behind the write is never reached. -/
theorem initialElements_settles (expression : Expression) :
    Settles machine (initialElements machine.bindings expression)
      (machine.initialElements expression) := by
  unfold initialElements
  change Settles machine
    (if machine.substitute expression.left = Word.arrayPop then _ else _) _
  split
  · next hsource =>
    have hother : machine.substitute expression.left ≠ Word.arrayAt := by
      rw [hsource]
      decide
    simp only [Machine.initialElements, if_neg hother, if_pos hsource,
      popElement, bind_assoc]
    refine .look_bind rfl fun element hlast => ?_
    cases element with
    | array elements =>
        have hpop : machine.popElement (machine.substitute expression.middle) =
            machine.changeElements (machine.substitute expression.middle)
              (fun elements => .ok elements.dropLast) >>= fun after =>
                pure (.array elements, after) := by
          simp only [Machine.popElement, hlast]
          rfl
        rw [if_neg (by simp [Value.elements?])]
        simp only [hpop, bind_assoc, pure_bind]
        exact changeElements_pure_settles machine _ _ elements
    | _ => rfl
  · next hsource =>
    exact .look_fst rfl fun _ _ => store_of_initialElements machine hsource

theorem declareTarget_settles (statement : Statement) {initial : InPlace α}
    {change : Except Fault (α × Store)} (fresh : α → Variable)
    (hinitial : Settles machine initial change) :
    Settles machine
      (declareTarget machine.bindings statement initial fresh)
      (if machine.store.contains (machine.targetName statement) then
        pure ((), machine.store)
      else change >>= fun changed =>
        pure ((), changed.2.declare (machine.targetName statement)
          (fresh changed.1))) := by
  cases hname : machine.store.contains (machine.targetName statement) with
  | true => exact .look_ok (congrArg Except.ok hname) rfl
  | false =>
      refine .look_ok (congrArg Except.ok hname) ?_
      exact hinitial.bind_ok (fun changed => ((), changed.2.declare
        (machine.targetName statement) (fresh changed.1))) fun _ _ => rfl

end Parts

section Statements

variable (machine : Machine) (statement : Statement)

theorem declare_settles :
    Settles machine (perform machine.bindings statement .declare)
      (machine.declare statement >>= fun changed =>
        pure ((), changed.store)) := by
  have hvalue := evaluate_settles machine statement.expression none
  have hdeclare := declareTarget_settles machine statement
    (fun value => ⟨value, statement.kind = .constant⟩) hvalue
  simp only [Machine.declare]
  split at hdeclare
  · next hname => rwa [if_pos hname]
  · next hname =>
    rw [if_neg hname, bind_assoc]
    exact hdeclare

theorem declareArray_settles :
    Settles machine (perform machine.bindings statement .arrayDeclare)
      (machine.declareArray statement >>= fun changed =>
        pure ((), changed.store)) := by
  have hinitial := initialElements_settles machine statement.expression
  have hdeclare := declareTarget_settles machine statement
    (fun elements => ⟨.array elements, false⟩) hinitial
  simp only [Machine.declareArray]
  split at hdeclare
  · next hname => rwa [if_pos hname]
  · next hname =>
    rw [if_neg hname, bind_assoc]
    exact hdeclare

theorem assign_settles :
    Settles machine (perform machine.bindings statement .assign)
      (machine.assign statement >>= fun changed =>
        pure ((), changed.store)) := by
  simp only [Machine.assign, bind_assoc]
  refine .look_bind rfl fun held _ => ?_
  split
  · rfl
  · have hvalue := evaluate_settles machine statement.expression
      (some held.value.kind)
    simp only [bind_assoc]
    exact hvalue.bind_ok (fun changed => ((), changed.2.setValue
      (machine.targetName statement)
      (Machine.keepDouble held.value.kind changed.1))) fun _ _ => rfl

theorem appendElement_settles :
    Settles machine (perform machine.bindings statement .arrayAppend)
      (machine.appendElement statement >>= fun changed =>
        pure ((), changed.store)) := by
  simp only [Machine.appendElement, bind_assoc]
  exact .look_ok rfl (changeElements_settles machine _ _)

theorem setElement_settles :
    Settles machine (perform machine.bindings statement .arraySet)
      (machine.setElement statement >>= fun changed =>
        pure ((), changed.store)) := by
  simp only [Machine.setElement, bind_assoc]
  refine .look_bind rfl fun index _ => .look_ok rfl ?_
  exact changeElements_settles machine _ _

theorem removeElements_settles :
    Settles machine (perform machine.bindings statement .arrayPop)
      (machine.removeElements statement >>= fun changed =>
        pure ((), changed.store)) := by
  simp only [Machine.removeElements, bind_assoc]
  exact .look_ok rfl (changeElements_settles machine _ _)

end Statements

theorem Settles.commit_eq {machine : Machine} {program : InPlace Unit}
    {change : Except Fault Machine}
    (hsettles : Settles machine program
      (change >>= fun changed => pure ((), changed.store)))
    (hchanges : ∀ changed, change = .ok changed →
      machine.ChangesStore changed) :
    machine.commit change =
      ((on program machine.store).1,
        { machine with store := (on program machine.store).2 }) := by
  rw [hsettles]
  cases change with
  | error fault => rfl
  | ok changed =>
      rw [hchanges changed rfl]
      rfl

end InPlace

/-- A statement that only changes variables does what its program does in place,
and leaves everything but the store as it is. -/
theorem Machine.perform_eq_inPlace (machine : Machine) (statement : Statement)
    {handler : Handler} (hhandler : handler.onlyVariables = true) :
    machine.perform statement handler =
      (((InPlace.perform machine.bindings statement handler).on
          machine.store).1,
        { machine with
          store := ((InPlace.perform machine.bindings statement handler).on
            machine.store).2 }) := by
  cases handler with
  | declare =>
      exact (InPlace.declare_settles machine statement).commit_eq
        fun _ => declare_changesStore
  | arrayDeclare =>
      exact (InPlace.declareArray_settles machine statement).commit_eq
        fun _ => declareArray_changesStore
  | arrayAppend =>
      exact (InPlace.appendElement_settles machine statement).commit_eq
        fun _ => changeElements_changesStore
  | arraySet =>
      exact (InPlace.setElement_settles machine statement).commit_eq
        fun _ => setElement_changesStore
  | arrayPop =>
      exact (InPlace.removeElements_settles machine statement).commit_eq
        fun _ => changeElements_changesStore
  | assign =>
      exact (InPlace.assign_settles machine statement).commit_eq
        fun _ => assign_changesStore
  | _ => contradiction

/-- A handler that neither prints nor reads leaves both streams alone. -/
theorem Machine.streams_perform (machine : Machine) (statement : Statement)
    {handler : Handler} (hprint : handler ≠ .print) (hread : handler ≠ .read) :
    (machine.perform statement handler).2.input = machine.input ∧
      (machine.perform statement handler).2.output = machine.output := by
  by_cases honly : handler.onlyVariables = true
  · rw [perform_eq_inPlace machine statement honly]
    exact ⟨rfl, rfl⟩
  · cases handler with
    | declare | arrayDeclare | arrayAppend | arraySet | arrayPop | assign
    | print | read => contradiction
    | define =>
        simp only [perform, define]
        split
        · exact ⟨rfl, rfl⟩
        · exact ⟨rfl, rfl⟩
    | block | call | leave => exact ⟨rfl, rfl⟩

end LineScript
