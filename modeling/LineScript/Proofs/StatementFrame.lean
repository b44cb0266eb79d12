/-
What a statement without a body leaves alone.  It writes only to the variables
that it names for writing, and to the array that its expression takes an element
out of; it takes no name away, and only a declaration adds one, in the innermost
frame.  A declaration of a name that is taken and an assignment to a constant do
nothing at all.
-/
import LineScript.Proofs.InPlaceChange
import LineScript.Proofs.RunTrace
import LineScript.Proofs.StoreHistory

namespace LineScript

namespace Store

/-- Variables with other names are what they were, and every frame has the names
that it had. -/
structure Rewrites (names : List String) (before after : Store) : Prop where
  others : ∀ name, name ∉ names → after.get? name = before.get? name
  frameNames : after.frameNames = before.frameNames

theorem get?_eq_none_iff_frameNames {store : Store} {name : String} :
    store.get? name = none ↔ ∀ names ∈ store.frameNames, name ∉ names := by
  rw [get?_eq_none_iff]
  simp [frameNames]

namespace Rewrites

variable {names : List String}

theorem refl (store : Store) : store.Rewrites names store :=
  ⟨fun _ _ => rfl, rfl⟩

theorem trans {first second third : Store}
    (hfirst : first.Rewrites names second)
    (hsecond : second.Rewrites names third) : first.Rewrites names third where
  others name hname :=
    (hsecond.others name hname).trans (hfirst.others name hname)
  frameNames := hsecond.frameNames.trans hfirst.frameNames

theorem mono {more : List String} {before after : Store}
    (hrewrites : before.Rewrites names after)
    (hsubset : ∀ name ∈ names, name ∈ more) : before.Rewrites more after where
  others name hname :=
    hrewrites.others name fun hmem => hname (hsubset name hmem)
  frameNames := hrewrites.frameNames

theorem modify {store : Store} {name : String} (hname : name ∈ names)
    (change : Variable → Variable) :
    store.Rewrites names (store.modify name change) where
  others other hother := by
    rw [get?_modify, if_neg]
    rintro rfl
    exact hother hname
  frameNames := frameNames_modify store name change

theorem get?_eq_none_iff {before after : Store}
    (hrewrites : before.Rewrites names after) {name : String} :
    after.get? name = none ↔ before.get? name = none := by
  rw [get?_eq_none_iff_frameNames, get?_eq_none_iff_frameNames,
    hrewrites.frameNames]

theorem contains_eq {before after : Store}
    (hrewrites : before.Rewrites names after) (name : String) :
    after.contains name = before.contains name := by
  rw [Bool.eq_iff_iff, ← not_iff_not, Bool.not_eq_true, Bool.not_eq_true,
    contains_eq_false_iff, contains_eq_false_iff]
  exact hrewrites.get?_eq_none_iff

end Rewrites

/-- After some rewriting, a name that was not there has been declared in the
innermost frame. -/
def Adds (added : String) (names : List String) (before after : Store) :
    Prop :=
  ∃ between fresh, before.Rewrites names between ∧
    between.declare? added fresh = some after

namespace Adds

variable {added : String} {names : List String} {before after : Store}

theorem get?_eq_none (hadds : Adds added names before after) :
    before.get? added = none := by
  obtain ⟨between, fresh, hrewrites, hdeclare⟩ := hadds
  obtain ⟨habsent, _⟩ := declare?_eq_some_iff.mp hdeclare
  rw [contains_eq_false_iff] at habsent
  exact hrewrites.get?_eq_none_iff.mp habsent

theorem others (hadds : Adds added names before after) {name : String}
    (hname : name ∉ added :: names) : after.get? name = before.get? name := by
  obtain ⟨between, fresh, hrewrites, hdeclare⟩ := hadds
  rw [List.mem_cons, not_or] at hname
  rw [get?_of_declare? hdeclare, if_neg hname.1, hrewrites.others name hname.2]

theorem contains (hadds : Adds added names before after) {name : String}
    (hname : before.contains name = true) : after.contains name = true := by
  obtain ⟨between, fresh, hrewrites, hdeclare⟩ := hadds
  have hbetween := hrewrites.contains_eq name
  unfold Store.contains at hname hbetween ⊢
  rw [get?_of_declare? hdeclare]
  split
  · rfl
  · rw [hbetween, hname]

theorem names_eq (hadds : Adds added names before after) :
    after.outer.map Frame.names = before.outer.map Frame.names ∧
      after.innermost.names.Perm (added :: before.innermost.names) := by
  obtain ⟨between, fresh, hrewrites, hdeclare⟩ := hadds
  obtain ⟨_, rfl⟩ := declare?_eq_some_iff.mp hdeclare
  have hnames := hrewrites.frameNames
  rw [frameNames_eq_cons, frameNames_eq_cons, List.cons.injEq] at hnames
  refine ⟨hnames.2, ?_⟩
  rw [← hnames.1]
  exact Frame.names_perm_insert added fresh between.innermost

end Adds

end Store

/-- Kinds of statements that declare their target. -/
def StatementKind.isDeclaration : StatementKind → Bool
  | declare | constant | arrayDeclare => true
  | _ => false

namespace Machine

/-- The array that an expression takes an element out of, if it does. -/
def poppedNames (machine : Machine) (expression : Expression) :
    List String :=
  if machine.substitute expression.left = Word.arrayPop then
    [machine.substitute expression.middle]
  else
    []

/-- The names that a statement without a body may write to. -/
def writtenNames (machine : Machine) (statement : Statement) : List String :=
  match statement.kind with
  | .declare | .constant | .arrayDeclare | .assign =>
    machine.targetName statement :: machine.poppedNames statement.expression
  | .arrayAppend | .arraySet | .arrayPop =>
    [machine.substitute statement.expression.left]
  | .readInt | .readFloat => statement.operands.map machine.substitute
  | _ => []

theorem writtenNames_of_isDeclaration (machine : Machine)
    {statement : Statement} (hdeclares : statement.kind.isDeclaration = true) :
    machine.writtenNames statement =
      machine.targetName statement ::
        machine.poppedNames statement.expression := by
  unfold writtenNames
  cases hkind : statement.kind <;>
    simp_all [StatementKind.isDeclaration]

end Machine

namespace InPlace

variable {α β : Type} {names : List String}

/-- However it ends, a program has only rewritten variables with some names. -/
def RewritesOnly (names : List String) (program : InPlace α) : Prop :=
  ∀ store : Store, store.Rewrites names (on program store).2

namespace RewritesOnly

theorem pure (value : α) : RewritesOnly names (Pure.pure value : InPlace α) :=
  fun store => .refl store

theorem throw (fault : Fault) :
    RewritesOnly names (MonadExcept.throw fault : InPlace α) :=
  fun store => .refl store

theorem look (bindings : List Bindings) (view : Machine → Except Fault α) :
    RewritesOnly names (look bindings view) :=
  fun store => .refl store

theorem setValue {name : String} (hname : name ∈ names) (value : Value) :
    RewritesOnly names (write (·.setValue name value)) :=
  fun _ => .modify hname _

theorem bind {first : InPlace α} {next : α → InPlace β}
    (hfirst : RewritesOnly names first)
    (hnext : ∀ value, RewritesOnly names (next value)) :
    RewritesOnly names (first >>= next) := by
  intro store
  have hbefore := hfirst store
  rw [on_bind]
  split
  · next value after hon =>
    rw [hon] at hbefore
    exact hbefore.trans (hnext value after)
  · next fault after hon =>
    rw [hon] at hbefore
    exact hbefore

theorem mono {more : List String} {program : InPlace α}
    (hprogram : RewritesOnly names program)
    (hsubset : ∀ name ∈ names, name ∈ more) : RewritesOnly more program :=
  fun store => (hprogram store).mono hsubset

end RewritesOnly

section Parts

variable (bindings : List Bindings)

theorem changeElements_rewritesOnly (name : String)
    (change : List Value → Except Fault (List Value)) :
    RewritesOnly [name] (changeElements bindings name change) := by
  refine .bind (.look _ _) fun held => .bind (.look _ _) fun elements => ?_
  split
  · exact .pure ()
  · refine .bind (.look _ _) fun changed => ?_
    exact .setValue List.mem_cons_self _

theorem popElement_rewritesOnly (name : String) (wantsArray : Bool) :
    RewritesOnly [name] (popElement bindings name wantsArray) := by
  refine .bind (.look _ _) fun element => ?_
  split
  · exact .throw _
  · exact .bind (changeElements_rewritesOnly bindings name _) fun _ => .pure _

theorem evaluate_rewritesOnly (expression : Expression) (hint : Option Kind) :
    RewritesOnly (Machine.poppedNames { bindings } expression)
      (evaluate bindings expression hint) := by
  unfold evaluate meant Machine.poppedNames
  split
  · exact popElement_rewritesOnly bindings _ false
  · exact .look _ _

theorem initialElements_rewritesOnly (expression : Expression) :
    RewritesOnly (Machine.poppedNames { bindings } expression)
      (initialElements bindings expression) := by
  unfold initialElements meant Machine.poppedNames
  split
  · refine .bind (popElement_rewritesOnly bindings _ true) fun element => ?_
    split
    · exact .pure _
    · exact .throw _
  · exact .look _ _

theorem assign_rewritesOnly (statement : Statement) :
    RewritesOnly
      (target bindings statement ::
        Machine.poppedNames { bindings } statement.expression)
      (assign bindings statement) := by
  refine .bind (.look _ _) fun held => ?_
  split
  · exact .pure ()
  · have hvalue := evaluate_rewritesOnly bindings statement.expression
      (some held.value.kind)
    refine .bind (hvalue.mono ?_) fun value => .setValue List.mem_cons_self _
    exact fun _ hmem => List.mem_cons_of_mem _ hmem

theorem appendElement_rewritesOnly (statement : Statement) :
    RewritesOnly [meant bindings statement.expression.left]
      (appendElement bindings statement) :=
  .bind (.look _ _) fun _ => changeElements_rewritesOnly bindings _ _

theorem setElement_rewritesOnly (statement : Statement) :
    RewritesOnly [meant bindings statement.expression.left]
      (setElement bindings statement) :=
  .bind (.look _ _) fun _ => .bind (.look _ _) fun _ =>
    changeElements_rewritesOnly bindings _ _

theorem removeElements_rewritesOnly (statement : Statement) :
    RewritesOnly [meant bindings statement.expression.left]
      (removeElements bindings statement) :=
  .bind (.look _ _) fun _ => changeElements_rewritesOnly bindings _ _

/-- A declaration rewrites what its expression does and then adds its target,
unless it ends before. -/
theorem declareTarget_adds {statement : Statement} {initial : InPlace α}
    (hinitial : RewritesOnly names initial) (fresh : α → Variable)
    (store : Store) :
    store.Rewrites names
        (on (declareTarget bindings statement initial fresh) store).2 ∨
      store.Adds (target bindings statement) names
        (on (declareTarget bindings statement initial fresh) store).2 := by
  have hrewrites := hinitial store
  unfold declareTarget
  rw [on_bind, on_look]
  cases hname : store.contains (target bindings statement) with
  | true => exact Or.inl (.refl store)
  | false =>
      simp only [Bool.false_eq_true, if_false, on_bind]
      rcases hon : on initial store with ⟨fault | value, between⟩
      · rw [hon] at hrewrites
        exact Or.inl hrewrites
      · rw [hon] at hrewrites
        have habsent : between.contains (target bindings statement) =
            false := by
          rw [Store.contains_eq_false_iff] at hname ⊢
          exact hrewrites.get?_eq_none_iff.mpr hname
        refine Or.inr ⟨between, fresh value, hrewrites, ?_⟩
        simp [on_write, Store.declare, Store.declare?, habsent]

end Parts

end InPlace

namespace Machine

theorem readInto_rewrites (machine : Machine) (kind : StatementKind)
    (token : String) :
    machine.store.Rewrites [machine.substitute token]
      (machine.readInto kind token).2.store := by
  simp only [readInto]
  split
  · exact .refl machine.store
  · split
    · exact .refl machine.store
    · split
      · exact .refl machine.store
      · exact .refl machine.store
      · split
        · exact .refl machine.store
        · exact .modify List.mem_cons_self _

theorem substitute_of_bindings {before after : Machine}
    (hbindings : after.bindings = before.bindings) (token : String) :
    after.substitute token = before.substitute token := by
  unfold substitute
  rw [hbindings]

/-- The targets keep their meaning while they are read, since reading leaves the
bindings alone. -/
theorem readAll_rewrites (machine : Machine) (kind : StatementKind)
    (tokens : List String) :
    machine.store.Rewrites (tokens.map machine.substitute)
      (machine.readAll kind tokens).2.store := by
  induction tokens generalizing machine with
  | nil => exact .refl machine.store
  | cons token later ih =>
      have hfirst : machine.store.Rewrites
          ((token :: later).map machine.substitute)
          (machine.readInto kind token).2.store := by
        apply (readInto_rewrites machine kind token).mono
        simp
      have heffect := readInto_effect machine kind token
      unfold readAll
      split
      · next after hread =>
        rw [hread] at hfirst heffect
        have hnames : later.map after.substitute =
            later.map machine.substitute :=
          List.map_congr_left fun other _ =>
            substitute_of_bindings heffect.bindings other
        refine hfirst.trans ((hnames ▸ ih after).mono ?_)
        exact fun _ hmem => List.mem_cons_of_mem _ hmem
      · exact hfirst

section Perform

variable (machine : Machine) {statement : Statement}

theorem store_perform (statement : Statement) {handler : Handler}
    (hhandler : handler.onlyVariables = true) :
    (machine.perform statement handler).2.store =
      ((InPlace.perform machine.bindings statement handler).on
        machine.store).2 := by
  rw [perform_eq_inPlace machine statement hhandler]

theorem define_store (statement : Statement) :
    (machine.define statement).store = machine.store := by
  unfold define
  split
  · rfl
  · rfl

theorem declare_frame :
    machine.store.Rewrites (machine.poppedNames statement.expression)
        (machine.perform statement .declare).2.store ∨
      machine.store.Adds (machine.targetName statement)
        (machine.poppedNames statement.expression)
        (machine.perform statement .declare).2.store := by
  rw [store_perform machine statement rfl]
  exact InPlace.declareTarget_adds machine.bindings
    (InPlace.evaluate_rewritesOnly machine.bindings _ none) _ machine.store

theorem declareArray_frame :
    machine.store.Rewrites (machine.poppedNames statement.expression)
        (machine.perform statement .arrayDeclare).2.store ∨
      machine.store.Adds (machine.targetName statement)
        (machine.poppedNames statement.expression)
        (machine.perform statement .arrayDeclare).2.store := by
  rw [store_perform machine statement rfl]
  exact InPlace.declareTarget_adds machine.bindings
    (InPlace.initialElements_rewritesOnly machine.bindings _) _ machine.store

/-- A statement that declares nothing only rewrites the variables that it may
write to. -/
theorem perform_rewrites {handler : Handler}
    (hhandler : statement.kind.handler? = some handler)
    (hdeclares : statement.kind.isDeclaration = false) :
    machine.store.Rewrites (machine.writtenNames statement)
      (machine.perform statement handler).2.store := by
  rcases statement with ⟨kind, line, lineNo, expression, body, second⟩
  cases kind with
  | declare | constant | arrayDeclare => contradiction
  | assign =>
      cases hhandler
      rw [store_perform machine _ rfl]
      exact InPlace.assign_rewritesOnly machine.bindings _ _
  | arrayAppend =>
      cases hhandler
      rw [store_perform machine _ rfl]
      exact InPlace.appendElement_rewritesOnly machine.bindings _ _
  | arraySet =>
      cases hhandler
      rw [store_perform machine _ rfl]
      exact InPlace.setElement_rewritesOnly machine.bindings _ _
  | arrayPop =>
      cases hhandler
      rw [store_perform machine _ rfl]
      exact InPlace.removeElements_rewritesOnly machine.bindings _ _
  | readInt | readFloat =>
      cases hhandler
      exact readAll_rewrites machine _ _
  | define =>
      cases hhandler
      rw [perform, define_store]
      exact .refl machine.store
  | blockOpen | blockClose | unknown => contradiction
  | _ =>
      cases hhandler
      exact .refl machine.store

/-- A statement with a handler of its own keeps the frame, declaration or
not. -/
theorem perform_frame {handler : Handler}
    (hhandler : statement.kind.handler? = some handler) :
    machine.store.Rewrites (machine.writtenNames statement)
        (machine.perform statement handler).2.store ∨
      statement.kind.isDeclaration = true ∧
        machine.store.Adds (machine.targetName statement)
          (machine.poppedNames statement.expression)
          (machine.perform statement handler).2.store := by
  rcases statement with ⟨kind, line, lineNo, expression, body, second⟩
  cases kind with
  | declare | constant =>
      cases hhandler
      refine (declare_frame machine).imp (fun hrewrites => ?_) (⟨rfl, ·⟩)
      exact hrewrites.mono fun _ hmem => List.mem_cons_of_mem _ hmem
  | arrayDeclare =>
      cases hhandler
      refine (declareArray_frame machine).imp (fun hrewrites => ?_) (⟨rfl, ·⟩)
      exact hrewrites.mono fun _ hmem => List.mem_cons_of_mem _ hmem
  | _ => exact Or.inl (perform_rewrites machine hhandler rfl)

/-- A declaration of a name that is taken does nothing. -/
theorem perform_of_taken {handler : Handler}
    (hhandler : statement.kind.handler? = some handler)
    (hdeclares : statement.kind.isDeclaration = true)
    (htaken : machine.store.contains (machine.targetName statement) = true) :
    machine.perform statement handler = (.ok (), machine) := by
  have hvariable : machine.declare statement = .ok machine := by
    simp only [declare, if_pos htaken]
    rfl
  have harray : machine.declareArray statement = .ok machine := by
    simp only [declareArray, if_pos htaken]
    rfl
  cases hkind : statement.kind with
  | declare | constant =>
      rw [hkind] at hhandler
      cases hhandler
      rw [perform, hvariable]
      rfl
  | arrayDeclare =>
      rw [hkind] at hhandler
      cases hhandler
      rw [perform, harray]
      rfl
  | _ => simp [hkind, StatementKind.isDeclaration] at hdeclares

/-- An assignment to a constant does nothing. -/
theorem perform_of_constant {held : Variable}
    (hheld : machine.store.get? (machine.targetName statement) = some held)
    (hconstant : held.constant = true) :
    machine.perform statement .assign = (.ok (), machine) := by
  have hassign : machine.assign statement = .ok machine := by
    simp only [assign, lookup, hheld]
    exact if_pos hconstant
  rw [perform, hassign]
  rfl

end Perform

/-- What a statement that is neither a block nor a call leaves alone, seen from
the machine before it and the outcome. -/
structure KeepsFrame (machine : Machine) (statement : Statement)
    (outcome : Outcome) : Prop where
  /-- Only what the statement names for writing has another value or
  constancy. -/
  others : ∀ name, name ∉ machine.writtenNames statement →
    outcome.2.store.get? name = machine.store.get? name
  /-- No name disappears. -/
  kept : ∀ name, machine.store.contains name = true →
    outcome.2.store.contains name = true
  /-- At most one name appears: the target of a declaration, in the innermost
  frame. -/
  names : outcome.2.store.frameNames = machine.store.frameNames ∨
    statement.kind.isDeclaration = true ∧
      machine.store.contains (machine.targetName statement) = false ∧
      outcome.2.store.outer.map Frame.names =
        machine.store.outer.map Frame.names ∧
      outcome.2.store.innermost.names.Perm
        (machine.targetName statement :: machine.store.innermost.names)
  /-- A declaration of a name that is taken does nothing. -/
  taken : statement.kind.isDeclaration = true →
    machine.store.contains (machine.targetName statement) = true →
    outcome = (.ok .next, machine)
  /-- An assignment to a constant does nothing. -/
  constant : statement.kind = .assign →
    ∀ held, machine.store.get? (machine.targetName statement) = some held →
    held.constant = true → outcome = (.ok .next, machine)

theorem performed_of_perform {machine after : Machine} {statement : Statement}
    {handler : Handler}
    (hperform : machine.perform statement handler = (.ok (), after)) :
    machine.performed statement handler = (.ok .next, after) := by
  rw [performed, hperform]

theorem keepsFrame_performed (machine : Machine) {statement : Statement}
    {handler : Handler} (hhandler : statement.kind.handler? = some handler) :
    KeepsFrame machine statement (machine.performed statement handler) := by
  have htaken hdeclares hname := performed_of_perform
    (perform_of_taken machine hhandler hdeclares hname)
  have hconstant : statement.kind = .assign → ∀ held,
      machine.store.get? (machine.targetName statement) = some held →
      held.constant = true →
      machine.performed statement handler = (.ok .next, machine) := by
    intro hkind held hheld hconstant
    rw [hkind] at hhandler
    cases hhandler
    exact performed_of_perform (perform_of_constant machine hheld hconstant)
  rcases perform_frame machine hhandler with hrewrites | ⟨hdeclares, hadds⟩
  · rw [← performed_snd] at hrewrites
    exact ⟨hrewrites.others, fun name => (hrewrites.contains_eq name).trans,
      Or.inl hrewrites.frameNames, htaken, hconstant⟩
  · rw [← performed_snd] at hadds
    have habsent := Store.contains_eq_false_iff.mpr hadds.get?_eq_none
    have hwritten := writtenNames_of_isDeclaration machine hdeclares
    exact ⟨fun name hname => hadds.others (hwritten ▸ hname),
      fun name => hadds.contains,
      Or.inr ⟨hdeclares, habsent, hadds.names_eq⟩, htaken, hconstant⟩

/-- Statements that only hand on control are neither declarations nor
assignments. -/
theorem keepsFrame_unchanged (machine : Machine) {statement : Statement}
    (hhandler : statement.kind.handler? = none ∨
      statement.kind.handler? = some .leave) (result : Except RunError Flow) :
    KeepsFrame machine statement (result, machine) where
  others _ _ := rfl
  kept _ := id
  names := Or.inl rfl
  taken hdeclares := by
    cases hkind : statement.kind <;>
      simp_all [StatementKind.handler?, StatementKind.isDeclaration]
  constant hassign := by simp [hassign, StatementKind.handler?] at hhandler

/-- A statement that is neither a block nor a call comes to an outcome in one
step, and whether it succeeds or fails, it keeps the frame. -/
theorem runStatement_keepsFrame (machine : Machine) (statement : Statement)
    (hblock : statement.kind.handler? ≠ some .block)
    (hcall : statement.kind.handler? ≠ some .call) :
    ∃ outcome : Outcome,
      (∀ budget, runStatement (budget + 1) statement machine =
        some outcome) ∧
      KeepsFrame machine statement outcome := by
  cases hhandler : statement.kind.handler? with
  | none =>
      refine ⟨(.ok .halt, machine), fun budget => ?_,
        keepsFrame_unchanged machine (Or.inl hhandler) _⟩
      rw [runStatement_succ, hhandler]
  | some handler =>
      by_cases hsimple : handler.isSimple = true
      · exact ⟨machine.performed statement handler,
          runStatement_of_isSimple hhandler hsimple machine,
          keepsFrame_performed machine hhandler⟩
      · obtain rfl : handler = .leave := by
          cases handler <;> simp_all [Handler.isSimple]
        refine ⟨(.ok .leave, machine), fun budget => ?_,
          keepsFrame_unchanged machine (Or.inr hhandler) _⟩
        rw [runStatement_succ, hhandler]

/-- An assignment that takes its value out of an array. -/
def popAssignment : Statement where
  kind := .assign
  line := ["q", "=", Word.arrayPop, "p"]
  lineNo := 7
  expression := { left := Word.arrayPop, middle := "p" }

/-- A call whose two parameters stand for the same array. -/
def insideAliasedCall : Machine where
  store :=
    { innermost := [("xs", ⟨.array [.int 1, .bool true], false⟩)]
      outer := [[("z", ⟨.array [.int 1, .bool true], false⟩)]] }
  bindings := [[("p", "xs"), ("q", "xs")]]
  calls := 1

theorem popAssignment_keepsFrame :
    popAssignment.kind.handler? ≠ some .block ∧
      popAssignment.kind.handler? ≠ some .call ∧
      ∃ outcome : Outcome,
        (∀ budget, runStatement (budget + 1) popAssignment insideAliasedCall =
          some outcome) ∧
        insideAliasedCall.writtenNames popAssignment = ["xs", "xs"] ∧
        outcome.2.store.get? "xs" = some ⟨.bool true, false⟩ ∧
        outcome.2.store.get? "z" =
          some ⟨.array [.int 1, .bool true], false⟩ := by
  obtain ⟨outcome, hrun, hframe⟩ := runStatement_keepsFrame insideAliasedCall
    popAssignment nofun nofun
  have hwritten : insideAliasedCall.writtenNames popAssignment =
      ["xs", "xs"] := by decide
  have hother := hframe.others "z" (by rw [hwritten]; decide)
  refine ⟨nofun, nofun, outcome, hrun, hwritten, ?_, hother⟩
  obtain rfl := Option.some.inj (hrun 0)
  rfl

end Machine

end LineScript
