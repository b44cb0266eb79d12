/-
The characters in a machine.  What a statement stores is a number, a truth value,
the value of a token, the joined texts of two values, or made of values that are
in the store already; and its names are tokens.  So a break that stands in no
token of the statement and nowhere in the machine is not in the machine
afterwards.
-/
import LineScript.Execution
import LineScript.Proofs.ArrayElements
import LineScript.Proofs.ValueCharacters

namespace LineScript

/-- A character stands in no slot of an expression. -/
def Expression.Lacks (c : Char) (expression : Expression) : Prop :=
  ∀ token ∈ expression.slots, c ∉ token.toList

/-- A character stands in no token of a statement. -/
structure Statement.Lacks (c : Char) (statement : Statement) : Prop where
  line : ∀ token ∈ statement.line, c ∉ token.toList
  expression : statement.expression.Lacks c

/-- A character stands in no name and in no text of a frame. -/
def Frame.Lacks (c : Char) (frame : Frame) : Prop :=
  ∀ entry ∈ frame, c ∉ entry.1.toList ∧ entry.2.value.Lacks c

/-- A character stands in no name and in no text of a store. -/
def Store.Lacks (c : Char) (store : Store) : Prop :=
  store.entries.Lacks c

/-- A character stands in no name and in no text of a machine's store, and in no
token that a parameter stands for. -/
structure Machine.Lacks (c : Char) (machine : Machine) : Prop where
  store : machine.store.Lacks c
  bindings : ∀ bound ∈ machine.bindings, ∀ pair ∈ bound, c ∉ pair.2.toList

variable {c : Char}

theorem Expression.lacks_iff {expression : Expression} :
    expression.Lacks c ↔ c ∉ expression.left.toList ∧
      c ∉ expression.middle.toList ∧ c ∉ expression.right.toList := by
  simp [Lacks, slots]

theorem Statement.Lacks.target {statement : Statement}
    (hstatement : statement.Lacks c) :
    c ∉ (statement.target?.getD "").toList := by
  cases htarget : statement.target? with
  | none => exact List.not_mem_nil
  | some name =>
      apply hstatement.line
      unfold target? at htarget
      split at htarget
      all_goals
        first
        | exact List.mem_of_getElem? htarget
        | exact List.mem_of_head? htarget
        | contradiction

namespace Store.Lacks

variable {store : Store} {name : String}

theorem enter (hstore : store.Lacks c) : store.enter.Lacks c :=
  hstore

theorem exit (hstore : store.Lacks c) : store.exit.2.Lacks c := by
  obtain ⟨front, hfront⟩ := frames_exit store
  intro entry hentry
  apply hstore
  rw [entries, ← hfront, List.flatten_append]
  exact List.mem_append_right _ hentry

theorem declare (hstore : store.Lacks c) (hname : c ∉ name.toList)
    {fresh : Variable} (hfresh : fresh.value.Lacks c) :
    (store.declare name fresh).Lacks c := by
  unfold Store.declare
  cases hdeclare : store.declare? name fresh with
  | none => exact hstore
  | some after =>
      intro entry hentry
      rcases List.mem_cons.mp ((entries_of_declare? hdeclare).mem_iff.mp hentry)
        with rfl | hold
      · exact ⟨hname, hfresh⟩
      · exact hstore entry hold

theorem modify (hstore : store.Lacks c) {change : Variable → Variable}
    (hchange : ∀ held, held.value.Lacks c → (change held).value.Lacks c) :
    (store.modify name change).Lacks c := by
  have hentries : (store.modify name change).entries =
      store.entries.modify name change := by
    rw [entries, entries, Frame.modify, List.map_flatten]
    rfl
  intro entry hentry
  rw [hentries] at hentry
  obtain ⟨before, hbefore, rfl⟩ := List.mem_map.mp hentry
  obtain ⟨hname, hvalue⟩ := hstore before hbefore
  dsimp only
  split
  · exact ⟨hname, hchange _ hvalue⟩
  · exact ⟨hname, hvalue⟩

theorem setValue (hstore : store.Lacks c) {value : Value}
    (hvalue : value.Lacks c) : (store.setValue name value).Lacks c :=
  hstore.modify fun _ _ => hvalue

theorem of_value? (hstore : store.Lacks c) {value : Value}
    (hvalue : store.value? name = some value) : value.Lacks c := by
  obtain ⟨held, hheld, rfl⟩ := Option.map_eq_some_iff.mp hvalue
  rw [get?_eq_entries] at hheld
  exact (hstore _ (mem_of_lookup_eq_some hheld)).2

end Store.Lacks

namespace Value.Lacks

variable {left right value : Value} {token : String} {hint : Option Kind}

/-- The only text that arithmetic makes is that of its two operands. -/
theorem combineValues (hbreak : IsBreak c) (hleft : left.Lacks c)
    (hright : right.Lacks c)
    (hvalue : combineValues left token right hint = .ok value) :
    value.Lacks c := by
  simp only [LineScript.combineValues] at hvalue
  split at hvalue
  · obtain rfl := Except.ok.inj hvalue
    simpa using ⟨notMem_render hbreak left hleft,
      notMem_render hbreak right hright⟩
  · split at hvalue
    · obtain ⟨number, _, rfl⟩ :=
        map_eq_ok_iff.mp (calculated_eq_ok_iff.mp hvalue)
      exact lacks_int number
    · split at hvalue
      · obtain ⟨number, _, rfl⟩ :=
          map_eq_ok_iff.mp (calculated_eq_ok_iff.mp hvalue)
        exact lacks_double number
      · contradiction

theorem binaryValue (hbreak : IsBreak c) (hleft : left.Lacks c)
    (hright : right.Lacks c)
    (hvalue : binaryValue left token right hint = .ok value) :
    value.Lacks c := by
  unfold LineScript.binaryValue at hvalue
  split at hvalue
  · obtain rfl := Except.ok.inj hvalue
    exact hleft
  · split at hvalue
    · obtain ⟨truth, _, rfl⟩ := map_eq_ok_iff.mp hvalue
      exact lacks_bool truth
    · split at hvalue
      · obtain rfl := Except.ok.inj hvalue
        exact lacks_bool _
      · split at hvalue
        · exact hleft.combineValues hbreak hright hvalue
        · contradiction

theorem readNumber {kind : StatementKind} {word : String}
    (hvalue : readNumber kind word = .ok value) : value.Lacks c := by
  unfold LineScript.readNumber at hvalue
  split at hvalue
  · split at hvalue
    · obtain rfl := Except.ok.inj hvalue
      exact lacks_int _
    · contradiction
  · split at hvalue
    · obtain rfl := Except.ok.inj hvalue
      exact lacks_double _
    · contradiction

end Value.Lacks

namespace Machine

variable {machine changed : Machine} {statement : Statement}
  {expression : Expression} {name token : String} {value : Value}
  {found : List Value} {store : Store}

namespace Lacks

theorem substitute (hmachine : machine.Lacks c) (htoken : c ∉ token.toList) :
    c ∉ (machine.substitute token).toList := by
  unfold Machine.substitute
  split
  · exact htoken
  · next bound outer hbindings =>
    cases hfound : bound.lookup token with
    | none => exact htoken
    | some found =>
        have hbound : bound ∈ machine.bindings := by
          rw [hbindings]
          exact List.mem_cons_self
        exact hmachine.bindings bound hbound _ (mem_of_lookup_eq_some hfound)

theorem targetName (hmachine : machine.Lacks c)
    (hstatement : statement.Lacks c) :
    c ∉ (machine.targetName statement).toList :=
  hmachine.substitute hstatement.target

theorem resolve (hmachine : machine.Lacks c) (htoken : c ∉ token.toList) :
    (machine.resolve token).Lacks c := by
  simp only [Machine.resolve]
  split
  · exact Value.lacks_absent
  · cases hvalue : machine.store.value? (machine.substitute token) with
    | none => exact Value.lacks_ofLiteral (hmachine.substitute htoken)
    | some value => exact hmachine.store.of_value? hvalue

theorem elements (hmachine : machine.Lacks c)
    (hfound : machine.elements name = .ok found) :
    ∀ element ∈ found, element.Lacks c :=
  Value.lacks_array.mp (hmachine.store.of_value? (value?_of_elements hfound))

theorem changeElements (hmachine : machine.Lacks c)
    {change : List Value → Except Fault (List Value)}
    (hchange : ∀ before after, (∀ element ∈ before, element.Lacks c) →
      change before = .ok after → ∀ element ∈ after, element.Lacks c)
    (hstore : machine.changeElements name change = .ok store) :
    store.Lacks c := by
  obtain ⟨held, _, hrest⟩ := bind_eq_ok_iff.mp hstore
  obtain ⟨before, hbefore, hrest⟩ := bind_eq_ok_iff.mp hrest
  split at hrest
  · obtain rfl := pure_eq_ok_iff.mp hrest
    exact hmachine.store
  · obtain ⟨after, hafter, hset⟩ := bind_eq_ok_iff.mp hrest
    obtain rfl := pure_eq_ok_iff.mp hset
    exact hmachine.store.setValue (Value.lacks_array.mpr
      (hchange before after (hmachine.elements hbefore) hafter))

theorem arrayElement (hmachine : machine.Lacks c) {source index : String}
    (helement : machine.arrayElement source index = .ok value) :
    value.Lacks c := by
  obtain ⟨outer, hmem, houter⟩ := exists_of_arrayElement helement
  exact Value.lacks_array.mp (hmachine.store.of_value? houter) value hmem

theorem lastElement (hmachine : machine.Lacks c)
    (hlast : machine.lastElement name = .ok value) : value.Lacks c := by
  obtain ⟨outer, hmem, houter⟩ := exists_of_lastElement hlast
  exact Value.lacks_array.mp (hmachine.store.of_value? houter) value hmem

theorem popElement (hmachine : machine.Lacks c)
    (hpop : machine.popElement name = .ok (value, store)) :
    value.Lacks c ∧ store.Lacks c := by
  obtain ⟨last, hlast, hrest⟩ := bind_eq_ok_iff.mp hpop
  obtain ⟨changed, hchanged, hpair⟩ := bind_eq_ok_iff.mp hrest
  obtain ⟨rfl, rfl⟩ := Prod.mk.inj (pure_eq_ok_iff.mp hpair)
  refine ⟨hmachine.lastElement hlast, hmachine.changeElements ?_ hchanged⟩
  intro before after hbefore hafter element helement
  obtain rfl := Except.ok.inj hafter
  exact hbefore element ((List.dropLast_sublist before).subset helement)

theorem evaluate (hbreak : IsBreak c) (hmachine : machine.Lacks c)
    (hexpression : expression.Lacks c) {hint : Option Kind}
    (hvalue : machine.evaluate expression hint = .ok (value, store)) :
    value.Lacks c ∧ store.Lacks c := by
  obtain ⟨hleft, _, hright⟩ := Expression.lacks_iff.mp hexpression
  simp only [Machine.evaluate] at hvalue
  split at hvalue
  · obtain ⟨element, helement, hpair⟩ := bind_eq_ok_iff.mp hvalue
    obtain ⟨rfl, rfl⟩ := Prod.mk.inj (pure_eq_ok_iff.mp hpair)
    exact ⟨hmachine.arrayElement helement, hmachine.store⟩
  · split at hvalue
    · obtain ⟨elements, _, hpair⟩ := bind_eq_ok_iff.mp hvalue
      obtain ⟨rfl, rfl⟩ := Prod.mk.inj (pure_eq_ok_iff.mp hpair)
      exact ⟨Value.lacks_int _, hmachine.store⟩
    · split at hvalue
      · exact hmachine.popElement hvalue
      · obtain ⟨result, hresult, hpair⟩ := bind_eq_ok_iff.mp hvalue
        obtain ⟨rfl, rfl⟩ := Prod.mk.inj (pure_eq_ok_iff.mp hpair)
        exact ⟨(hmachine.resolve hleft).binaryValue hbreak
          (hmachine.resolve hright) hresult, hmachine.store⟩

theorem initialElements (hmachine : machine.Lacks c)
    (hexpression : expression.Lacks c)
    (hinitial : machine.initialElements expression = .ok (found, store)) :
    (∀ element ∈ found, element.Lacks c) ∧ store.Lacks c := by
  simp only [Machine.initialElements] at hinitial
  split at hinitial
  · obtain ⟨element, helement, hrest⟩ := bind_eq_ok_iff.mp hinitial
    have hlacks := hmachine.arrayElement helement
    split at hrest
    · obtain ⟨rfl, rfl⟩ := Prod.mk.inj (pure_eq_ok_iff.mp hrest)
      exact ⟨Value.lacks_array.mp hlacks, hmachine.store⟩
    · contradiction
  · split at hinitial
    · obtain ⟨element, helement, hrest⟩ := bind_eq_ok_iff.mp hinitial
      have hlacks := hmachine.lastElement helement
      split at hrest
      · obtain ⟨⟨last, after⟩, hpop, hpair⟩ := bind_eq_ok_iff.mp hrest
        obtain ⟨rfl, rfl⟩ := Prod.mk.inj (pure_eq_ok_iff.mp hpair)
        exact ⟨Value.lacks_array.mp hlacks, (hmachine.popElement hpop).2⟩
      · contradiction
    · obtain ⟨rfl, rfl⟩ := Prod.mk.inj (pure_eq_ok_iff.mp hinitial)
      refine ⟨?_, hmachine.store⟩
      intro element helement
      obtain ⟨token, htoken, rfl⟩ := List.mem_map.mp helement
      exact hmachine.resolve (hexpression token (List.mem_filter.mp htoken).1)

theorem declare (hbreak : IsBreak c) (hmachine : machine.Lacks c)
    (hstatement : statement.Lacks c)
    (hchanged : machine.declare statement = .ok changed) :
    changed.store.Lacks c := by
  simp only [Machine.declare] at hchanged
  split at hchanged
  · obtain rfl := pure_eq_ok_iff.mp hchanged
    exact hmachine.store
  · obtain ⟨⟨value, store⟩, hvalue, hdeclared⟩ := bind_eq_ok_iff.mp hchanged
    obtain rfl := pure_eq_ok_iff.mp hdeclared
    obtain ⟨hlacks, hstore⟩ :=
      hmachine.evaluate hbreak hstatement.expression hvalue
    exact hstore.declare (hmachine.targetName hstatement) hlacks

theorem declareArray (hmachine : machine.Lacks c)
    (hstatement : statement.Lacks c)
    (hchanged : machine.declareArray statement = .ok changed) :
    changed.store.Lacks c := by
  simp only [Machine.declareArray] at hchanged
  split at hchanged
  · obtain rfl := pure_eq_ok_iff.mp hchanged
    exact hmachine.store
  · obtain ⟨⟨elements, store⟩, hinitial, hdeclared⟩ :=
      bind_eq_ok_iff.mp hchanged
    obtain rfl := pure_eq_ok_iff.mp hdeclared
    obtain ⟨hlacks, hstore⟩ :=
      hmachine.initialElements hstatement.expression hinitial
    exact hstore.declare (hmachine.targetName hstatement)
      (Value.lacks_array.mpr hlacks)

theorem keepDouble {held : Kind} (hvalue : value.Lacks c) :
    (Machine.keepDouble held value).Lacks c := by
  cases value with
  | int number =>
      simp only [Machine.keepDouble]
      split
      · exact Value.lacks_double _
      · exact hvalue
  | _ => exact hvalue

theorem assign (hbreak : IsBreak c) (hmachine : machine.Lacks c)
    (hstatement : statement.Lacks c)
    (hchanged : machine.assign statement = .ok changed) :
    changed.store.Lacks c := by
  obtain ⟨held, _, hrest⟩ := bind_eq_ok_iff.mp hchanged
  split at hrest
  · obtain rfl := pure_eq_ok_iff.mp hrest
    exact hmachine.store
  · obtain ⟨⟨value, store⟩, hvalue, hassigned⟩ := bind_eq_ok_iff.mp hrest
    obtain rfl := pure_eq_ok_iff.mp hassigned
    obtain ⟨hlacks, hstore⟩ :=
      hmachine.evaluate hbreak hstatement.expression hvalue
    exact hstore.setValue (keepDouble hlacks)

theorem appendElement (hmachine : machine.Lacks c)
    (hstatement : statement.Lacks c)
    (hchanged : machine.appendElement statement = .ok changed) :
    changed.store.Lacks c := by
  obtain ⟨_, hmiddle, _⟩ := Expression.lacks_iff.mp hstatement.expression
  obtain ⟨store, hstore, happended⟩ := bind_eq_ok_iff.mp hchanged
  obtain rfl := pure_eq_ok_iff.mp happended
  refine hmachine.changeElements ?_ hstore
  intro before after hbefore hafter
  obtain rfl := Except.ok.inj hafter
  exact List.forall_mem_append.mpr
    ⟨hbefore, List.forall_mem_singleton.mpr (hmachine.resolve hmiddle)⟩

theorem setElement (hmachine : machine.Lacks c)
    (hstatement : statement.Lacks c)
    (hchanged : machine.setElement statement = .ok changed) :
    changed.store.Lacks c := by
  obtain ⟨_, _, hright⟩ := Expression.lacks_iff.mp hstatement.expression
  obtain ⟨index, _, hrest⟩ := bind_eq_ok_iff.mp hchanged
  obtain ⟨store, hstore, hset⟩ := bind_eq_ok_iff.mp hrest
  obtain rfl := pure_eq_ok_iff.mp hset
  refine hmachine.changeElements ?_ hstore
  intro before after hbefore hafter element helement
  obtain ⟨_, _, hwritten⟩ := bind_eq_ok_iff.mp hafter
  obtain rfl := pure_eq_ok_iff.mp hwritten
  rcases List.mem_or_eq_of_mem_set helement with hold | rfl
  · exact hbefore element hold
  · exact hmachine.resolve hright

theorem removeElements (hmachine : machine.Lacks c)
    (hchanged : machine.removeElements statement = .ok changed) :
    changed.store.Lacks c := by
  obtain ⟨store, hstore, hremoved⟩ := bind_eq_ok_iff.mp hchanged
  obtain rfl := pure_eq_ok_iff.mp hremoved
  refine hmachine.changeElements ?_ hstore
  intro before after hbefore hafter element helement
  split at hafter
  · contradiction
  · obtain rfl := Except.ok.inj hafter
    exact hbefore element (List.mem_of_mem_take helement)

theorem readInto (hmachine : machine.Lacks c) (kind : StatementKind)
    (token : String) : (machine.readInto kind token).2.store.Lacks c := by
  simp only [Machine.readInto]
  split
  · exact hmachine.store
  · split
    · exact hmachine.store
    · split
      · exact hmachine.store
      · exact hmachine.store
      · split
        · exact hmachine.store
        · next value hvalue =>
          apply hmachine.store.modify
          intro held hheld
          split
          · exact hheld
          · exact Value.Lacks.readNumber hvalue

theorem of_effect (hmachine : machine.Lacks c)
    (heffect : Effect machine changed) (hstore : changed.store.Lacks c) :
    changed.Lacks c where
  store := hstore
  bindings := by
    rw [heffect.bindings]
    exact hmachine.bindings

theorem readAll (hmachine : machine.Lacks c) (kind : StatementKind)
    (tokens : List String) : (machine.readAll kind tokens).2.store.Lacks c := by
  induction tokens generalizing machine with
  | nil => exact hmachine.store
  | cons token later ih =>
      have hfirst := hmachine.of_effect (readInto_effect machine kind token)
        (hmachine.readInto kind token)
      unfold Machine.readAll
      split
      · next after hread =>
        rw [hread] at hfirst
        exact ih hfirst
      · exact hfirst.store

theorem commit (hmachine : machine.Lacks c)
    {result : Except Fault Machine}
    (hresult : ∀ changed, result = .ok changed → changed.store.Lacks c) :
    (machine.commit result).2.store.Lacks c := by
  cases result with
  | error fault => exact hmachine.store
  | ok changed => exact hresult changed rfl

/-- A statement without a body brings no break into a machine but those of its own
tokens. -/
theorem perform (hbreak : IsBreak c) (hmachine : machine.Lacks c)
    (hstatement : statement.Lacks c) (handler : Handler) :
    (machine.perform statement handler).2.Lacks c := by
  apply hmachine.of_effect (perform_effect machine statement handler)
  cases handler with
  | declare =>
      exact hmachine.commit fun _ => hmachine.declare hbreak hstatement
  | arrayDeclare =>
      exact hmachine.commit fun _ => hmachine.declareArray hstatement
  | arrayAppend =>
      exact hmachine.commit fun _ => hmachine.appendElement hstatement
  | arraySet => exact hmachine.commit fun _ => hmachine.setElement hstatement
  | arrayPop => exact hmachine.commit fun _ => hmachine.removeElements
  | assign => exact hmachine.commit fun _ => hmachine.assign hbreak hstatement
  | print | block | call | leave => exact hmachine.store
  | read =>
      simp only [Machine.perform, Machine.read]
      split
      · exact hmachine.readAll _ _
      · exact hmachine.store
  | define =>
      simp only [Machine.perform, Machine.define]
      split
      · exact hmachine.store
      · exact hmachine.store

theorem enterBlock (hmachine : machine.Lacks c) : machine.enterBlock.Lacks c :=
  ⟨hmachine.store.enter, hmachine.bindings⟩

theorem exitBlock (hmachine : machine.Lacks c) : machine.exitBlock.Lacks c :=
  ⟨hmachine.store.exit, hmachine.bindings⟩

/-- A parameter stands for a token of the call, or for what that stood for. -/
theorem enterCall (hmachine : machine.Lacks c) (hexpression : expression.Lacks c)
    (parameters : Expression) :
    (machine.enterCall (machine.bindArguments parameters expression)).Lacks
      c where
  store := hmachine.store
  bindings := by
    refine List.forall_mem_cons.mpr ⟨?_, hmachine.bindings⟩
    intro pair hpair
    rw [bindArguments, List.mem_reverse] at hpair
    obtain ⟨⟨parameter, argument⟩, hused, rfl⟩ := List.mem_map.mp hpair
    have hzip := (List.mem_filter.mp hused).1
    exact hmachine.substitute (hexpression argument (List.of_mem_zip hzip).2)

theorem exitCall (hmachine : machine.Lacks c) : machine.exitCall.Lacks c :=
  ⟨hmachine.store, fun bound hbound =>
    hmachine.bindings bound (List.mem_of_mem_tail hbound)⟩

end Lacks

end Machine

end LineScript
