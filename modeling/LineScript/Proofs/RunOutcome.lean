/-
The outcome of a run without its budget.  A run that has an outcome within some
budget has the same outcome within every larger one, so "the run ends with this
outcome" means the same as "some budget is large enough to see this outcome".
-/
import LineScript.Execution

namespace LineScript

namespace Machine

theorem runStatements_nil (budget : Nat) (machine : Machine) :
    runStatements (budget + 1) [] machine = some (.ok .next, machine) :=
  rfl

theorem runStatements_cons (budget : Nat) (statement : Statement)
    (later : List Statement) (machine : Machine) :
    runStatements (budget + 1) (statement :: later) machine =
      match runStatement budget statement machine with
      | some (.ok .next, after) => runStatements budget later after
      | outcome => outcome :=
  rfl

/-- The outcome of a statement without a body. -/
def performed (machine : Machine) (statement : Statement)
    (handler : Handler) : Outcome :=
  match machine.perform statement handler with
  | (.ok (), after) => (.ok .next, after)
  | (.error fault, after) =>
    (Outcome.fault fault after).atLine statement.lineNo

theorem runStatement_succ (budget : Nat) (statement : Statement)
    (machine : Machine) :
    runStatement (budget + 1) statement machine =
      match statement.kind.handler? with
      | none => some (.ok .halt, machine)
      | some .leave => some (.ok .leave, machine)
      | some .block =>
        (runBlock budget statement machine).map (·.atLine statement.lineNo)
      | some .call =>
        (runCall budget statement machine).map (·.atLine statement.lineNo)
      | some handler => some (machine.performed statement handler) := by
  rw [runStatement]
  cases statement.kind.handler? with
  | none => rfl
  | some handler =>
      cases handler with
      | leave | block | call => rfl
      | _ =>
          simp only [performed]
          split <;> simp_all

theorem runBlock_succ (budget : Nat) (statement : Statement)
    (machine : Machine) :
    runBlock (budget + 1) statement machine =
      match machine.blockCondition statement with
      | .error fault => some (.fault fault machine)
      | .ok false => some (.ok .next, machine)
      | .ok true =>
        match runScoped budget statement.body machine with
        | some (.ok .next, after) =>
          if statement.kind = .loop then runBlock budget statement after
          else some (.ok .next, after)
        | outcome => outcome :=
  rfl

theorem runScoped_succ (budget : Nat) (body : List Statement)
    (machine : Machine) :
    runScoped (budget + 1) body machine =
      (runStatements budget body machine.enterBlock).map
        fun outcome => (outcome.1, outcome.2.exitBlock) := by
  rw [runScoped]
  cases runStatements budget body machine.enterBlock <;> rfl

theorem runCall_succ (budget : Nat) (statement : Statement)
    (machine : Machine) :
    runCall (budget + 1) statement machine =
      match machine.callee statement with
      | .error fault => some (.fault fault machine)
      | .ok procedure =>
        (runScoped budget procedure.body
          (machine.enterCall (machine.bindArguments procedure.parameters
            statement.expression))).map
          fun outcome => (outcome.1.map Flow.afterCall, outcome.2.exitCall) := by
  rw [runCall]
  cases machine.callee statement with
  | error fault => rfl
  | ok procedure =>
      simp only
      cases runScoped budget procedure.body _ <;> rfl

/-- One step more changes no outcome that is there within a budget. -/
structure Patient (budget : Nat) : Prop where
  statements : ∀ {statements machine outcome},
    runStatements budget statements machine = some outcome →
      runStatements (budget + 1) statements machine = some outcome
  statement : ∀ {statement machine outcome},
    runStatement budget statement machine = some outcome →
      runStatement (budget + 1) statement machine = some outcome
  block : ∀ {statement machine outcome},
    runBlock budget statement machine = some outcome →
      runBlock (budget + 1) statement machine = some outcome
  scope : ∀ {body machine outcome},
    runScoped budget body machine = some outcome →
      runScoped (budget + 1) body machine = some outcome
  call : ∀ {statement machine outcome},
    runCall budget statement machine = some outcome →
      runCall (budget + 1) statement machine = some outcome

namespace Patient

variable {budget : Nat}

theorem statements_succ (hpatient : Patient budget)
    {statements : List Statement} {machine : Machine} {outcome : Outcome}
    (hrun : runStatements (budget + 1) statements machine = some outcome) :
    runStatements (budget + 2) statements machine = some outcome := by
  cases statements with
  | nil => exact hrun
  | cons statement later =>
      rw [runStatements_cons] at hrun ⊢
      cases hfirst : runStatement budget statement machine with
      | none => simp [hfirst] at hrun
      | some first =>
          rw [hfirst] at hrun
          rw [hpatient.statement hfirst]
          obtain ⟨_ | (_ | _ | _), after⟩ := first
          · exact hrun
          · exact hpatient.statements hrun
          · exact hrun
          · exact hrun

theorem statement_succ (hpatient : Patient budget) {statement : Statement}
    {machine : Machine} {outcome : Outcome}
    (hrun : runStatement (budget + 1) statement machine = some outcome) :
    runStatement (budget + 2) statement machine = some outcome := by
  rw [runStatement_succ] at hrun ⊢
  split at hrun
  · exact hrun
  · exact hrun
  · obtain ⟨inner, hinner, hline⟩ := Option.map_eq_some_iff.mp hrun
    simp [hpatient.block hinner, hline]
  · obtain ⟨inner, hinner, hline⟩ := Option.map_eq_some_iff.mp hrun
    simp [hpatient.call hinner, hline]
  · exact hrun

theorem block_succ (hpatient : Patient budget) {statement : Statement}
    {machine : Machine} {outcome : Outcome}
    (hrun : runBlock (budget + 1) statement machine = some outcome) :
    runBlock (budget + 2) statement machine = some outcome := by
  rw [runBlock_succ] at hrun ⊢
  cases hcondition : machine.blockCondition statement with
  | error fault => simpa [hcondition] using hrun
  | ok holds =>
      cases holds with
      | false => simpa [hcondition] using hrun
      | true =>
          simp only [hcondition] at hrun ⊢
          cases hbody : runScoped budget statement.body machine with
          | none => simp [hbody] at hrun
          | some inner =>
              rw [hbody] at hrun
              rw [hpatient.scope hbody]
              obtain ⟨_ | (_ | _ | _), after⟩ := inner
              · exact hrun
              · by_cases hloop : statement.kind = .loop
                · simp only [hloop, if_true] at hrun ⊢
                  exact hpatient.block hrun
                · simpa [hloop] using hrun
              · exact hrun
              · exact hrun

theorem scope_succ (hpatient : Patient budget) {body : List Statement}
    {machine : Machine} {outcome : Outcome}
    (hrun : runScoped (budget + 1) body machine = some outcome) :
    runScoped (budget + 2) body machine = some outcome := by
  rw [runScoped_succ] at hrun ⊢
  obtain ⟨inner, hinner, hexit⟩ := Option.map_eq_some_iff.mp hrun
  simp [hpatient.statements hinner, hexit]

theorem call_succ (hpatient : Patient budget) {statement : Statement}
    {machine : Machine} {outcome : Outcome}
    (hrun : runCall (budget + 1) statement machine = some outcome) :
    runCall (budget + 2) statement machine = some outcome := by
  rw [runCall_succ] at hrun ⊢
  cases hcallee : machine.callee statement with
  | error fault => simpa [hcallee] using hrun
  | ok procedure =>
      simp only [hcallee] at hrun ⊢
      obtain ⟨inner, hinner, hexit⟩ := Option.map_eq_some_iff.mp hrun
      simp [hpatient.scope hinner, hexit]

end Patient

theorem patient (budget : Nat) : Patient budget := by
  induction budget with
  | zero => constructor <;> intro _ _ _ hrun <;> contradiction
  | succ budget ih =>
      exact ⟨ih.statements_succ, ih.statement_succ, ih.block_succ,
        ih.scope_succ, ih.call_succ⟩

theorem runStatements_mono {budget more : Nat} (hle : budget ≤ more)
    {statements : List Statement} {machine : Machine} {outcome : Outcome}
    (hrun : runStatements budget statements machine = some outcome) :
    runStatements more statements machine = some outcome := by
  induction hle with
  | refl => exact hrun
  | step _ ih => exact (patient _).statements ih

/-- The run of some statements ends with an outcome. -/
def RunsTo (statements : List Statement) (machine : Machine)
    (outcome : Outcome) : Prop :=
  ∃ budget, runStatements budget statements machine = some outcome

/-- A run has at most one outcome. -/
theorem RunsTo.unique {statements : List Statement} {machine : Machine}
    {first second : Outcome} (hfirst : RunsTo statements machine first)
    (hsecond : RunsTo statements machine second) : first = second := by
  obtain ⟨budget, hbudget⟩ := hfirst
  obtain ⟨other, hother⟩ := hsecond
  have hlarge := runStatements_mono (Nat.le_max_left budget other) hbudget
  rw [runStatements_mono (Nat.le_max_right budget other) hother] at hlarge
  exact (Option.some.inj hlarge).symm

end Machine

end LineScript
