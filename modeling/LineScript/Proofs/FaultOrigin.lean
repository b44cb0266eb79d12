/-
Where an error comes from.  A handler fails by itself, or it passes on the error
of a statement that it runs.  An error gets the line of the statement whose
handler failed by itself, and no statement around it changes that line.  Nothing
goes to work any more after such a failure, so it is the last activation of the
run.
-/
import LineScript.Proofs.ReachableCode

namespace LineScript

namespace Machine

/-- The handler of a statement fails by itself: the statement cannot be carried
out, its condition has no truth value, or there is no procedure to call or no call
left. -/
inductive Fails (statement : Statement) (machine : Machine) : Fault → Prop
  | simple {handler : Handler} {fault : Fault} :
    statement.kind.handler? = some handler → handler.isSimple = true →
      (machine.perform statement handler).1 = .error fault →
      Fails statement machine fault
  | condition {fault : Fault} :
    statement.kind = .branch ∨ statement.kind = .loop ∨
        statement.kind = .otherwise ∧ statement.expression.isEmpty = false →
      machine.evaluateCondition statement.expression = .error fault →
      Fails statement machine fault
  | unknownProcedure :
    statement.kind = .call →
      machine.procedures.lookup (machine.targetName statement) = none →
      Fails statement machine
        (.functionNotFound (machine.targetName statement))
  | noCallLeft {procedure : Procedure} :
    statement.kind = .call →
      machine.procedures.lookup (machine.targetName statement) =
        some procedure →
      machine.callLimit ≤ machine.calls →
      Fails statement machine (.recursionLimit machine.callLimit)

theorem fails_of_blockCondition {statement : Statement} {machine : Machine}
    {fault : Fault} (hhandler : statement.kind.handler? = some .block)
    (hcondition : machine.blockCondition statement = .error fault) :
    Fails statement machine fault := by
  unfold blockCondition at hcondition
  split at hcondition
  · contradiction
  · next halways =>
    refine .condition ?_ hcondition
    cases hkind : statement.kind with
    | branch => exact Or.inl rfl
    | loop => exact Or.inr (Or.inl rfl)
    | otherwise =>
        refine Or.inr (Or.inr ⟨rfl, ?_⟩)
        simpa [hkind] using halways
    | _ => simp [hkind, StatementKind.handler?] at hhandler

theorem fails_of_callee {statement : Statement} {machine : Machine}
    {fault : Fault} (hhandler : statement.kind.handler? = some .call)
    (hcallee : machine.callee statement = .error fault) :
    Fails statement machine fault := by
  have hkind : statement.kind = .call := by
    cases hkind : statement.kind <;>
      simp [hkind, StatementKind.handler?] at hhandler ⊢
  simp only [callee] at hcallee
  split at hcallee
  · next hunknown =>
    obtain rfl := Except.error.inj hcallee
    exact .unknownProcedure hkind hunknown
  · next procedure hfound =>
    split at hcallee
    · next hlimit =>
      obtain rfl := Except.error.inj hcallee
      exact .noCallLeft hkind hfound hlimit
    · contradiction

/-- The last handler that went to work failed by itself, and the error has the
fault and the line of its statement. -/
def RaisedLast (trace : List Activation) (error : RunError) : Prop :=
  ∃ front statement machine, trace = front ++ [⟨statement, machine⟩] ∧
    Fails statement machine error.fault ∧
    error.line = some statement.lineNo

theorem RaisedLast.append {trace : List Activation} {error : RunError}
    (hraised : RaisedLast trace error) (before : List Activation) :
    RaisedLast (before ++ trace) error := by
  obtain ⟨front, statement, machine, rfl, hfails, hline⟩ := hraised
  exact ⟨before ++ front, statement, machine, by simp, hfails, hline⟩

theorem RaisedLast.atLine {trace : List Activation} {error : RunError}
    (hraised : RaisedLast trace error) (line : Nat) :
    RaisedLast trace (error.atLine line) := by
  obtain ⟨front, statement, machine, htrace, hfails, hline⟩ := hraised
  exact ⟨front, statement, machine, htrace, hfails, by
    simp [RunError.atLine, hline]⟩

/-- Tasks whose errors have a line.  Blocks and calls get theirs from the statement
that runs them. -/
def Task.isPlaced : Task → Bool
  | .block _ | .call _ => false
  | _ => true

/-- The failure of a block or a call of its own, which has no line yet. -/
inductive FailsUnplaced : Task → Activation → Fault → Prop
  | block {statement : Statement} {machine : Machine} {fault : Fault} :
    machine.blockCondition statement = .error fault →
      FailsUnplaced (.block statement) ⟨statement, machine⟩ fault
  | call {statement : Statement} {machine : Machine} {fault : Fault} :
    machine.callee statement = .error fault →
      FailsUnplaced (.call statement) ⟨statement, machine⟩ fault

/-- The last activation explains an error: it raised the error at its line, or it
is the failure of the task of its own. -/
def Explained (task : Task) (trace : List Activation) (error : RunError) :
    Prop :=
  RaisedLast trace error ∨
    error.line = none ∧ ∃ front last, trace = front ++ [last] ∧
      FailsUnplaced task last error.fault

theorem Explained.append {task : Task} {trace : List Activation}
    {error : RunError} (hexplained : Explained task trace error)
    (before : List Activation) : Explained task (before ++ trace) error := by
  rcases hexplained with hraised | ⟨hline, front, last, rfl, hfails⟩
  · exact Or.inl (hraised.append before)
  · exact Or.inr ⟨hline, before ++ front, last, by simp, hfails⟩

theorem Explained.raisedLast {task : Task} {trace : List Activation}
    {error : RunError} (hexplained : Explained task trace error)
    (hplaced : task.isPlaced = true) : RaisedLast trace error := by
  rcases hexplained with hraised | ⟨_, _, _, _, ⟨_⟩ | ⟨_⟩⟩
  · exact hraised
  · contradiction
  · contradiction

theorem RaisedLast.of_unplaced {trace : List Activation} {error : RunError}
    {statement : Statement} {machine : Machine} {front : List Activation}
    (htrace : trace = front ++ [⟨statement, machine⟩])
    (hfails : Fails statement machine error.fault)
    (hline : error.line = none) :
    RaisedLast trace (error.atLine statement.lineNo) := by
  refine ⟨front, statement, machine, htrace, hfails, ?_⟩
  simp [RunError.atLine, hline]

/-- The statement that is a block attaches its line to the failure of its
condition and leaves every other error alone. -/
theorem Explained.of_block {statement : Statement} {trace : List Activation}
    {error : RunError} (hhandler : statement.kind.handler? = some .block)
    (hexplained : Explained (.block statement) trace error) :
    RaisedLast trace (error.atLine statement.lineNo) := by
  rcases hexplained with hraised | ⟨hline, front, last, htrace, hfails⟩
  · exact hraised.atLine statement.lineNo
  · cases hfails with
    | block hcondition =>
        have hfails := fails_of_blockCondition hhandler hcondition
        exact .of_unplaced htrace hfails hline

theorem Explained.of_call {statement : Statement} {trace : List Activation}
    {error : RunError} (hhandler : statement.kind.handler? = some .call)
    (hexplained : Explained (.call statement) trace error) :
    RaisedLast trace (error.atLine statement.lineNo) := by
  rcases hexplained with hraised | ⟨hline, front, last, htrace, hfails⟩
  · exact hraised.atLine statement.lineNo
  · cases hfails with
    | call hcallee =>
        have hfails := fails_of_callee hhandler hcallee
        exact .of_unplaced htrace hfails hline

theorem atLine_eq_error_iff {outcome : Outcome} {line : Nat}
    {error : RunError} :
    (outcome.atLine line).1 = .error error ↔
      ∃ inner, outcome.1 = .error inner ∧ inner.atLine line = error := by
  rcases outcome with ⟨inner | flow, after⟩
  · constructor
    · intro herror
      exact ⟨inner, rfl, Except.error.inj herror⟩
    · rintro ⟨_, ⟨rfl⟩, rfl⟩
      rfl
  · constructor
    · intro herror
      contradiction
    · rintro ⟨_, hinner, _⟩
      contradiction

/-- A simple statement fails with its own line. -/
theorem raisedLast_of_performed {statement : Statement} {handler : Handler}
    {machine : Machine} {error : RunError}
    (hhandler : statement.kind.handler? = some handler)
    (hsimple : handler.isSimple = true)
    (herror : (machine.performed statement handler).1 = .error error) :
    RaisedLast [⟨statement, machine⟩] error := by
  unfold performed at herror
  split at herror
  · contradiction
  · next fault after hperform =>
    obtain rfl := Except.error.inj herror
    have hfault : (machine.perform statement handler).1 = .error fault := by
      rw [hperform]
    exact ⟨[], statement, machine, rfl, .simple hhandler hsimple hfault, rfl⟩

/-- Every error is explained by the last activation. -/
theorem Completes.explained {task : Task} {machine : Machine}
    {trace : List Activation} {outcome : Outcome} {error : RunError}
    (hcompletes : Completes task machine trace outcome)
    (herror : outcome.1 = .error error) : Explained task trace error := by
  induction hcompletes generalizing error with
  | nil | halt _ | leave _ | skipped _ => contradiction
  | next _ _ _ ihRest =>
      exact Or.inl (((ihRest herror).raisedLast rfl).append _)
  | stop _ _ ih => exact Or.inl ((ih herror).raisedLast rfl)
  | simple hhandler hsimple =>
      exact Or.inl (raisedLast_of_performed hhandler hsimple herror)
  | block hhandler _ ih =>
      obtain ⟨inner, hinner, rfl⟩ := atLine_eq_error_iff.mp herror
      exact Or.inl ((ih hinner).of_block hhandler)
  | call hhandler _ ih =>
      obtain ⟨inner, hinner, rfl⟩ := atLine_eq_error_iff.mp herror
      exact Or.inl ((ih hinner).of_call hhandler)
  | undecided hcondition =>
      obtain rfl := Except.error.inj herror
      exact Or.inr ⟨rfl, [], _, rfl, .block hcondition⟩
  | @again statement machine _ inside _ _ _ _ _ _ _ ihRest =>
      exact (ihRest herror).append (⟨statement, machine⟩ :: inside)
  | @once statement machine _ _ _ _ _ ih =>
      have hraised := (ih herror).raisedLast rfl
      exact Or.inl (hraised.append [⟨statement, machine⟩])
  | scope _ ih => exact Or.inl ((ih herror).raisedLast rfl)
  | refused hcallee =>
      obtain rfl := Except.error.inj herror
      exact Or.inr ⟨rfl, [], _, rfl, .call hcallee⟩
  | @called statement _ machine _ outcome _ _ ih =>
      have hinner : outcome.1 = .error error := by
        rcases outcome with ⟨inner | flow, after⟩
        · exact herror
        · contradiction
      have hraised := (ih hinner).raisedLast rfl
      exact Or.inl (hraised.append [⟨statement, machine⟩])

/-- A program fails because its last flush does, without a line, or because of a
statement at the line of the error: its handler is the last one that went to work,
and it failed by itself.  The statement stands in the program or in a procedure
that was there before. -/
theorem error_has_line_of_failure {budget : Nat} {program : Program}
    {machine after : Machine} {error : RunError}
    (hrun : execute budget program machine = some (.error error, after)) :
    (∃ reason, after.output.flush = .error (.stream reason) ∧
      error = ⟨.stream reason, none⟩) ∨
    ∃ front statement point,
      Completes (.statements program.statements)
        (machine.declareArguments program.arguments)
        (front ++ [⟨statement, point⟩]) (.error error, after) ∧
      Fails statement point error.fault ∧
      error.line = some statement.lineNo ∧
      machine.Knows program.statements statement := by
  obtain ⟨trace, ended, hcompletes, hflushed⟩ :=
    exists_execute_iff.mp ⟨budget, hrun⟩
  rcases flushed_cases hflushed with rfl | ⟨fault, hflush, hresult, _⟩
  · obtain ⟨front, statement, point, rfl, hfails, hline⟩ :=
      (hcompletes.explained rfl).raisedLast rfl
    have hknown := hcompletes.knows ⟨statement, point⟩ (by simp)
    exact Or.inr ⟨front, statement, point, hcompletes, hfails, hline, hknown⟩
  · obtain rfl := Except.error.inj hresult
    refine Or.inl ?_
    unfold OutputStream.flush at hflush ⊢
    split at hflush
    · next hfails =>
      obtain rfl := Except.error.inj hflush
      exact ⟨_, if_pos hfails, rfl⟩
    · contradiction

/-- A program that calls a procedure. -/
def callsFailing : Program where
  statements := [{ kind := .call, line := ["call", "f"], lineNo := 7 }]
  arguments := .ofList []

/-- A machine on which that procedure runs into a failure inside a loop. -/
def withFailing : Machine where
  procedures := [("f", ⟨{}, [failingLoop]⟩)]

/-- The error has the line of the assignment, not that of the loop or the call
around it. -/
theorem callsFailing_has_line_of_assignment :
    ∃ after,
      execute 12 callsFailing withFailing =
        some (.error ⟨.undefinedVariable "z", some 3⟩, after) ∧
      ∃ statement point,
        Fails statement point (.undefinedVariable "z") ∧
        statement.lineNo = 3 ∧
        withFailing.Knows callsFailing.statements statement := by
  let after : Machine := { withFailing with
    store := { innermost := [(Word.arguments, ⟨.array [], true⟩)]
               log := #[.entering 1, .entering 2, .evicting "y" 2] } }
  have hrun : execute 12 callsFailing withFailing =
      some (.error ⟨.undefinedVariable "z", some 3⟩, after) := rfl
  rcases error_has_line_of_failure hrun with
    ⟨reason, _, herror⟩ | ⟨_, statement, point, _, hfails, hline, hknown⟩
  · simp at herror
  · exact ⟨after, hrun, statement, point, hfails,
      (Option.some.inj hline).symm, hknown⟩

end Machine

end LineScript
