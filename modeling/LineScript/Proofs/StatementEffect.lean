/-
What a statement without a body can do to a machine: it edits the store and uses
the streams and the procedures, but never touches the bindings or the count of
the active calls, nor any frame of the store as such.
-/
import LineScript.SimpleStatement
import LineScript.Proofs.FallibleSteps
import LineScript.Proofs.StoreEdit

namespace LineScript

/-- A computation that hands on a store as it is. -/
theorem store_eq_of_bind_pure {α β : Type} {first : Except Fault α}
    {next : α → β} {kept store : Store} {result : β}
    (hbind : (first >>= fun value => pure (next value, kept)) =
      .ok (result, store)) : store = kept := by
  obtain ⟨value, _, hpair⟩ := bind_eq_ok_iff.mp hbind
  rw [pure_eq_ok_iff, Prod.mk.injEq] at hpair
  exact hpair.2.symm

namespace Machine

theorem lookup_eq_ok_iff {machine : Machine} {name : String}
    {held : Variable} :
    machine.lookup name = .ok held ↔ machine.store.get? name = some held := by
  cases hfound : machine.store.get? name with
  | none => simp [lookup, hfound]
  | some found => simp [lookup, hfound]

/-- Changing an array is an edit, because a constant array is left alone. -/
theorem changeElements_edits {machine : Machine} {name : String}
    {change : List Value → Except Fault (List Value)} {store : Store}
    (hchange : machine.changeElements name change = .ok store) :
    machine.store.Edits store := by
  obtain ⟨held, hheld, hrest⟩ := bind_eq_ok_iff.mp hchange
  obtain ⟨elements, _, hrest⟩ := bind_eq_ok_iff.mp hrest
  cases hconstant : held.constant with
  | true =>
      have hsame : machine.store = store := by
        simpa [hconstant, pure, Except.pure] using hrest
      exact hsame ▸ .refl
  | false =>
      simp only [hconstant, Bool.false_eq_true, if_false] at hrest
      obtain ⟨changed, _, hstore⟩ := bind_eq_ok_iff.mp hrest
      rw [pure_eq_ok_iff] at hstore
      subst store
      exact Store.edits_setValue (lookup_eq_ok_iff.mp hheld) hconstant _

theorem popElement_edits {machine : Machine} {name : String} {value : Value}
    {store : Store} (hpop : machine.popElement name = .ok (value, store)) :
    machine.store.Edits store := by
  obtain ⟨element, _, hrest⟩ := bind_eq_ok_iff.mp hpop
  obtain ⟨changed, hchanged, hpair⟩ := bind_eq_ok_iff.mp hrest
  rw [pure_eq_ok_iff, Prod.mk.injEq] at hpair
  exact hpair.2 ▸ changeElements_edits hchanged

theorem evaluate_edits {machine : Machine} {expression : Expression}
    {hint : Option Kind} {value : Value} {store : Store}
    (hvalue : machine.evaluate expression hint = .ok (value, store)) :
    machine.store.Edits store := by
  simp only [evaluate] at hvalue
  split at hvalue
  · exact store_eq_of_bind_pure hvalue ▸ .refl
  · split at hvalue
    · exact store_eq_of_bind_pure hvalue ▸ .refl
    · split at hvalue
      · exact popElement_edits hvalue
      · exact store_eq_of_bind_pure hvalue ▸ .refl

theorem initialElements_edits {machine : Machine} {expression : Expression}
    {elements : List Value} {store : Store}
    (hinitial : machine.initialElements expression = .ok (elements, store)) :
    machine.store.Edits store := by
  simp only [initialElements] at hinitial
  split at hinitial
  · obtain ⟨element, _, hrest⟩ := bind_eq_ok_iff.mp hinitial
    cases element with
    | array inner =>
        rw [pure_eq_ok_iff, Prod.mk.injEq] at hrest
        exact hrest.2 ▸ .refl
    | _ => simp at hrest
  · split at hinitial
    · obtain ⟨element, _, hrest⟩ := bind_eq_ok_iff.mp hinitial
      cases element with
      | array inner =>
          obtain ⟨popped, hpopped, hpair⟩ := bind_eq_ok_iff.mp hrest
          rw [pure_eq_ok_iff, Prod.mk.injEq] at hpair
          exact hpair.2 ▸ popElement_edits hpopped
      | _ => simp at hrest
    · rw [pure_eq_ok_iff, Prod.mk.injEq] at hinitial
      exact hinitial.2 ▸ .refl

/-- The machine after a statement without a body. -/
structure Effect (before after : Machine) : Prop where
  store : before.store.Edits after.store
  bindings : after.bindings = before.bindings
  calls : after.calls = before.calls
  callLimit : after.callLimit = before.callLimit

namespace Effect

theorem refl (machine : Machine) : Effect machine machine :=
  ⟨.refl, rfl, rfl, rfl⟩

theorem trans {first second third : Machine} (hfirst : Effect first second)
    (hsecond : Effect second third) : Effect first third where
  store := hfirst.store.trans hsecond.store
  bindings := hsecond.bindings.trans hfirst.bindings
  calls := hsecond.calls.trans hfirst.calls
  callLimit := hsecond.callLimit.trans hfirst.callLimit

theorem of_edits {machine : Machine} {store : Store}
    (hedits : machine.store.Edits store) :
    Effect machine { machine with store } :=
  ⟨hedits, rfl, rfl, rfl⟩

theorem commit {machine : Machine} {result : Except Fault Machine}
    (hresult : ∀ changed, result = .ok changed → Effect machine changed) :
    Effect machine (machine.commit result).2 := by
  cases result with
  | error fault => exact refl machine
  | ok changed => exact hresult changed rfl

end Effect

theorem declare_effect {machine changed : Machine} {statement : Statement}
    (hdeclare : machine.declare statement = .ok changed) :
    Effect machine changed := by
  simp only [declare] at hdeclare
  split at hdeclare
  · rw [pure_eq_ok_iff] at hdeclare
    exact hdeclare ▸ .refl machine
  · obtain ⟨⟨value, store⟩, hvalue, hchanged⟩ := bind_eq_ok_iff.mp hdeclare
    rw [pure_eq_ok_iff] at hchanged
    subst changed
    exact .of_edits ((evaluate_edits hvalue).trans
      (Store.edits_declare store _ _))

theorem declareArray_effect {machine changed : Machine}
    {statement : Statement}
    (hdeclare : machine.declareArray statement = .ok changed) :
    Effect machine changed := by
  simp only [declareArray] at hdeclare
  split at hdeclare
  · rw [pure_eq_ok_iff] at hdeclare
    exact hdeclare ▸ .refl machine
  · obtain ⟨⟨elements, store⟩, hinitial, hchanged⟩ :=
      bind_eq_ok_iff.mp hdeclare
    rw [pure_eq_ok_iff] at hchanged
    subst changed
    exact .of_edits ((initialElements_edits hinitial).trans
      (Store.edits_declare store _ _))

/-- The expression may take an element out of an array before the value is
written, but that makes no constant of the target. -/
theorem assign_effect {machine changed : Machine} {statement : Statement}
    (hassign : machine.assign statement = .ok changed) :
    Effect machine changed := by
  obtain ⟨held, hheld, hrest⟩ := bind_eq_ok_iff.mp hassign
  split at hrest
  · rw [pure_eq_ok_iff] at hrest
    exact hrest ▸ .refl machine
  · next hvariable =>
    obtain ⟨⟨value, store⟩, hvalue, hchanged⟩ := bind_eq_ok_iff.mp hrest
    rw [pure_eq_ok_iff] at hchanged
    subst changed
    have hedits := evaluate_edits hvalue
    obtain ⟨now, hnow, hkeeps⟩ := (Store.Extends.of_edits hedits).kept _ held
      (lookup_eq_ok_iff.mp hheld)
    have hwritable : now.constant = false := by
      rw [hkeeps.constant]
      simpa using hvariable
    exact .of_edits (hedits.trans (Store.edits_setValue hnow hwritable _))

theorem changeElements_effect {machine changed : Machine} {name : String}
    {change : List Value → Except Fault (List Value)}
    (hchange : (do
      let store ← machine.changeElements name change
      return { machine with store }) = .ok changed) :
    Effect machine changed := by
  obtain ⟨store, hstore, hchanged⟩ := bind_eq_ok_iff.mp hchange
  rw [pure_eq_ok_iff] at hchanged
  subst changed
  exact .of_edits (changeElements_edits hstore)

theorem setElement_effect {machine changed : Machine} {statement : Statement}
    (hset : machine.setElement statement = .ok changed) :
    Effect machine changed := by
  obtain ⟨index, _, hrest⟩ := bind_eq_ok_iff.mp hset
  exact changeElements_effect hrest

theorem print_effect (machine : Machine) (statement : Statement) :
    Effect machine (machine.print statement).2 :=
  ⟨.refl, rfl, rfl, rfl⟩

/-- Reading writes to a variable only where it is not constant. -/
theorem readInto_effect (machine : Machine) (kind : StatementKind)
    (token : String) : Effect machine (machine.readInto kind token).2 := by
  simp only [readInto]
  split
  · exact .refl machine
  · split
    · exact .refl machine
    · split
      · exact ⟨.refl, rfl, rfl, rfl⟩
      · exact ⟨.refl, rfl, rfl, rfl⟩
      · split
        · exact ⟨.refl, rfl, rfl, rfl⟩
        · refine ⟨Store.Edits.refl.write ?_, rfl, rfl, rfl⟩
          intro held _
          cases hconstant : held.constant with
          | true => simpa using Variable.Keeps.refl held
          | false => exact ⟨by simp [hconstant], by simp [hconstant]⟩

theorem readAll_effect (machine : Machine) (kind : StatementKind)
    (tokens : List String) :
    Effect machine (machine.readAll kind tokens).2 := by
  induction tokens generalizing machine with
  | nil => exact .refl machine
  | cons token later ih =>
      have hfirst := readInto_effect machine kind token
      unfold readAll
      split
      · next after hread =>
        rw [hread] at hfirst
        exact hfirst.trans (ih after)
      · exact hfirst

theorem read_effect (machine : Machine) (statement : Statement) :
    Effect machine (machine.read statement).2 := by
  unfold read
  split
  · exact readAll_effect machine _ _
  · exact .refl machine

theorem define_effect (machine : Machine) (statement : Statement) :
    Effect machine (machine.define statement) := by
  unfold define
  split
  · exact .refl machine
  · exact ⟨.refl, rfl, rfl, rfl⟩

/-- Whether it succeeds or fails, a statement without a body has only such an
effect. -/
theorem perform_effect (machine : Machine) (statement : Statement)
    (handler : Handler) :
    Effect machine (machine.perform statement handler).2 := by
  cases handler with
  | declare => exact .commit fun _ => declare_effect
  | arrayDeclare => exact .commit fun _ => declareArray_effect
  | arrayAppend => exact .commit fun _ => changeElements_effect
  | arraySet => exact .commit fun _ => setElement_effect
  | arrayPop => exact .commit fun _ => changeElements_effect
  | assign => exact .commit fun _ => assign_effect
  | print => exact print_effect machine statement
  | read => exact read_effect machine statement
  | define => exact define_effect machine statement
  | block | call | leave => exact .refl machine

/-- Nothing but the store has changed. -/
def ChangesStore (before after : Machine) : Prop :=
  after = { before with store := after.store }

section ChangesStore

variable {machine changed : Machine} {statement : Statement}

theorem declare_changesStore
    (hdeclare : machine.declare statement = .ok changed) :
    ChangesStore machine changed := by
  simp only [declare] at hdeclare
  split at hdeclare
  · rw [pure_eq_ok_iff] at hdeclare
    subst changed
    rfl
  · obtain ⟨_, _, hchanged⟩ := bind_eq_ok_iff.mp hdeclare
    rw [pure_eq_ok_iff] at hchanged
    subst changed
    rfl

theorem declareArray_changesStore
    (hdeclare : machine.declareArray statement = .ok changed) :
    ChangesStore machine changed := by
  simp only [declareArray] at hdeclare
  split at hdeclare
  · rw [pure_eq_ok_iff] at hdeclare
    subst changed
    rfl
  · obtain ⟨_, _, hchanged⟩ := bind_eq_ok_iff.mp hdeclare
    rw [pure_eq_ok_iff] at hchanged
    subst changed
    rfl

theorem assign_changesStore (hassign : machine.assign statement = .ok changed) :
    ChangesStore machine changed := by
  obtain ⟨_, _, hrest⟩ := bind_eq_ok_iff.mp hassign
  split at hrest
  · rw [pure_eq_ok_iff] at hrest
    subst changed
    rfl
  · obtain ⟨_, _, hchanged⟩ := bind_eq_ok_iff.mp hrest
    rw [pure_eq_ok_iff] at hchanged
    subst changed
    rfl

theorem changeElements_changesStore {name : String}
    {change : List Value → Except Fault (List Value)}
    (hchange : (do
      let store ← machine.changeElements name change
      return { machine with store }) = .ok changed) :
    ChangesStore machine changed := by
  obtain ⟨_, _, hchanged⟩ := bind_eq_ok_iff.mp hchange
  rw [pure_eq_ok_iff] at hchanged
  subst changed
  rfl

theorem setElement_changesStore
    (hset : machine.setElement statement = .ok changed) :
    ChangesStore machine changed := by
  obtain ⟨_, _, hrest⟩ := bind_eq_ok_iff.mp hset
  exact changeElements_changesStore hrest

theorem commit_changesStore {result : Except Fault Machine}
    (hresult : ∀ changed, result = .ok changed →
      ChangesStore machine changed) :
    ChangesStore machine (machine.commit result).2 := by
  rcases result with fault | changed
  · rfl
  · exact hresult changed rfl

end ChangesStore

theorem ChangesStore.procedures_eq {before after : Machine}
    (hchanges : ChangesStore before after) :
    after.procedures = before.procedures := by
  rw [hchanges]

theorem procedures_readInto (machine : Machine) (kind : StatementKind)
    (token : String) :
    (machine.readInto kind token).2.procedures = machine.procedures := by
  simp only [readInto]
  repeat' split
  all_goals rfl

/-- What reading one target leaves alone, reading several does. -/
theorem readAll_keeps {α : Type} (view : Machine → α) {kind : StatementKind}
    (hkeeps : ∀ machine token,
      view (machine.readInto kind token).2 = view machine)
    (machine : Machine) (tokens : List String) :
    view (machine.readAll kind tokens).2 = view machine := by
  induction tokens generalizing machine with
  | nil => rfl
  | cons token later ih =>
      have hfirst := hkeeps machine token
      unfold readAll
      split
      · next after hread => rw [ih after, ← hfirst, hread]
      · exact hfirst

theorem procedures_readAll (machine : Machine) (kind : StatementKind)
    (tokens : List String) :
    (machine.readAll kind tokens).2.procedures = machine.procedures :=
  readAll_keeps Machine.procedures
    (fun machine token => procedures_readInto machine kind token) machine tokens

/-- Only a definition registers a procedure. -/
theorem procedures_perform (machine : Machine) (statement : Statement)
    {handler : Handler} (hdefine : handler ≠ .define) :
    (machine.perform statement handler).2.procedures = machine.procedures := by
  cases handler with
  | declare =>
      exact (commit_changesStore fun _ => declare_changesStore).procedures_eq
  | arrayDeclare =>
      exact
        (commit_changesStore fun _ => declareArray_changesStore).procedures_eq
  | arrayAppend | arrayPop =>
      exact
        (commit_changesStore fun _ => changeElements_changesStore).procedures_eq
  | arraySet =>
      exact (commit_changesStore fun _ => setElement_changesStore).procedures_eq
  | assign =>
      exact (commit_changesStore fun _ => assign_changesStore).procedures_eq
  | print => rfl
  | read =>
      simp only [perform, read]
      split
      · exact procedures_readAll machine _ _
      · rfl
  | define => contradiction
  | block | call | leave => rfl

end Machine

end LineScript
