/-
Runs as derivations.  There is one rule for each thing that a run can do, and a
derivation lists the statements in the order in which their handlers went to work.
A run has an outcome exactly where there is a derivation of it, so what is said
about all runs is said by induction on the rules, and a run is shown to end by
building its derivation.
-/
import LineScript.Proofs.RunRelation

namespace LineScript

/-- Handlers that carry out their statement at once. -/
def Handler.isSimple : Handler → Bool
  | leave | block | call => false
  | _ => true

namespace Machine

/-- What can be run on a machine. -/
inductive Task
  | statements (statements : List Statement)
  | statement (statement : Statement)
  | block (statement : Statement)
  | scope (body : List Statement)
  | call (statement : Statement)

def runTask (budget : Nat) : Task → Machine → Option Outcome
  | .statements statements => runStatements budget statements
  | .statement statement => runStatement budget statement
  | .block statement => runBlock budget statement
  | .scope body => runScoped budget body
  | .call statement => runCall budget statement

theorem runTask_mono {budget more : Nat} (hle : budget ≤ more) {task : Task}
    {machine : Machine} {outcome : Outcome}
    (hrun : runTask budget task machine = some outcome) :
    runTask more task machine = some outcome := by
  induction hle with
  | refl => exact hrun
  | @step more _ ih =>
      have hpatient := patient more
      cases task with
      | statements _ => exact hpatient.statements ih
      | statement _ => exact hpatient.statement ih
      | block _ => exact hpatient.block ih
      | scope _ => exact hpatient.scope ih
      | call _ => exact hpatient.call ih

/-- Blocks and calls are run only where their handlers are at work. -/
def Task.Dispatched : Task → Prop
  | .block one => one.kind.handler? = some .block
  | .call one => one.kind.handler? = some .call
  | _ => True

/-- A handler that goes to work: its statement, and the machine that it works on.
For a block this is every evaluation of its condition, and for a call the search
for the procedure; the statements inside have activations of their own. -/
structure Activation where
  statement : Statement
  machine : Machine

/-- A task comes to an outcome, with these activations on the way. -/
inductive Completes : Task → Machine → List Activation → Outcome → Prop
  | nil {machine : Machine} :
    Completes (.statements []) machine [] (.ok .next, machine)
  | next {statement : Statement} {later : List Statement}
      {machine after : Machine} {first rest : List Activation}
      {outcome : Outcome} :
    Completes (.statement statement) machine first (.ok .next, after) →
      Completes (.statements later) after rest outcome →
      Completes (.statements (statement :: later)) machine (first ++ rest)
        outcome
  | stop {statement : Statement} {later : List Statement} {machine : Machine}
      {trace : List Activation} {outcome : Outcome} :
    Completes (.statement statement) machine trace outcome →
      outcome.1 ≠ .ok .next →
      Completes (.statements (statement :: later)) machine trace outcome
  | halt {statement : Statement} {machine : Machine} :
    statement.kind.handler? = none →
      Completes (.statement statement) machine [⟨statement, machine⟩]
        (.ok .halt, machine)
  | leave {statement : Statement} {machine : Machine} :
    statement.kind.handler? = some .leave →
      Completes (.statement statement) machine [⟨statement, machine⟩]
        (.ok .leave, machine)
  | simple {statement : Statement} {handler : Handler} {machine : Machine} :
    statement.kind.handler? = some handler → handler.isSimple = true →
      Completes (.statement statement) machine [⟨statement, machine⟩]
        (machine.performed statement handler)
  | block {statement : Statement} {machine : Machine}
      {trace : List Activation} {outcome : Outcome} :
    statement.kind.handler? = some .block →
      Completes (.block statement) machine trace outcome →
      Completes (.statement statement) machine trace
        (outcome.atLine statement.lineNo)
  | call {statement : Statement} {machine : Machine}
      {trace : List Activation} {outcome : Outcome} :
    statement.kind.handler? = some .call →
      Completes (.call statement) machine trace outcome →
      Completes (.statement statement) machine trace
        (outcome.atLine statement.lineNo)
  | undecided {statement : Statement} {machine : Machine} {fault : Fault} :
    machine.blockCondition statement = .error fault →
      Completes (.block statement) machine [⟨statement, machine⟩]
        (.fault fault machine)
  | skipped {statement : Statement} {machine : Machine} :
    machine.blockCondition statement = .ok false →
      Completes (.block statement) machine [⟨statement, machine⟩]
        (.ok .next, machine)
  | again {statement : Statement} {machine after : Machine}
      {inside rest : List Activation} {outcome : Outcome} :
    machine.blockCondition statement = .ok true → statement.kind = .loop →
      Completes (.scope statement.body) machine inside (.ok .next, after) →
      Completes (.block statement) after rest outcome →
      Completes (.block statement) machine
        (⟨statement, machine⟩ :: (inside ++ rest)) outcome
  | once {statement : Statement} {machine : Machine}
      {inside : List Activation} {outcome : Outcome} :
    machine.blockCondition statement = .ok true →
      (outcome.1 = .ok .next → statement.kind ≠ .loop) →
      Completes (.scope statement.body) machine inside outcome →
      Completes (.block statement) machine (⟨statement, machine⟩ :: inside)
        outcome
  | scope {body : List Statement} {machine : Machine}
      {trace : List Activation} {outcome : Outcome} :
    Completes (.statements body) machine.enterBlock trace outcome →
      Completes (.scope body) machine trace (outcome.1, outcome.2.exitBlock)
  | refused {statement : Statement} {machine : Machine} {fault : Fault} :
    machine.callee statement = .error fault →
      Completes (.call statement) machine [⟨statement, machine⟩]
        (.fault fault machine)
  | called {statement : Statement} {procedure : Procedure} {machine : Machine}
      {inside : List Activation} {outcome : Outcome} :
    machine.callee statement = .ok procedure →
      Completes (.scope procedure.body)
        (machine.enterCall (machine.bindArguments procedure.parameters
          statement.expression)) inside outcome →
      Completes (.call statement) machine (⟨statement, machine⟩ :: inside)
        (outcome.1.map Flow.afterCall, outcome.2.exitCall)

/-- Every outcome within a budget has a derivation. -/
def Derived (budget : Nat) : Prop :=
  ∀ task {machine outcome}, runTask budget task machine = some outcome →
    ∃ trace, Completes task machine trace outcome

namespace Derived

variable {budget : Nat}

theorem statements_succ (hderived : Derived budget)
    {statements : List Statement} {machine : Machine} {outcome : Outcome}
    (hrun : runStatements (budget + 1) statements machine = some outcome) :
    ∃ trace, Completes (.statements statements) machine trace outcome := by
  rcases statements with _ | ⟨statement, later⟩
  · rw [runStatements_nil, Option.some.injEq] at hrun
    subst outcome
    exact ⟨[], .nil⟩
  · rw [runStatements_cons] at hrun
    split at hrun
    · next after hfirst =>
      obtain ⟨first, hstatement⟩ := hderived (.statement statement) hfirst
      obtain ⟨rest, hlater⟩ := hderived (.statements later) hrun
      exact ⟨first ++ rest, .next hstatement hlater⟩
    · next hstops =>
      obtain ⟨trace, hstatement⟩ := hderived (.statement statement) hrun
      refine ⟨trace, .stop hstatement ?_⟩
      intro hnext
      exact hstops outcome.2 (by rw [hrun, ← hnext])

theorem statement_succ (hderived : Derived budget) {statement : Statement}
    {machine : Machine} {outcome : Outcome}
    (hrun : runStatement (budget + 1) statement machine = some outcome) :
    ∃ trace, Completes (.statement statement) machine trace outcome := by
  rw [runStatement_succ] at hrun
  split at hrun
  · next hhandler =>
    obtain rfl := Option.some.inj hrun
    exact ⟨_, .halt hhandler⟩
  · next hhandler =>
    obtain rfl := Option.some.inj hrun
    exact ⟨_, .leave hhandler⟩
  · next hhandler =>
    obtain ⟨inner, hinner, rfl⟩ := Option.map_eq_some_iff.mp hrun
    obtain ⟨trace, hblock⟩ := hderived (.block statement) hinner
    exact ⟨trace, .block hhandler hblock⟩
  · next hhandler =>
    obtain ⟨inner, hinner, rfl⟩ := Option.map_eq_some_iff.mp hrun
    obtain ⟨trace, hcall⟩ := hderived (.call statement) hinner
    exact ⟨trace, .call hhandler hcall⟩
  · next handler hleave hblock hcall hhandler =>
    obtain rfl := Option.some.inj hrun
    have hsimple : handler.isSimple = true := by
      cases handler <;> first | rfl | contradiction
    exact ⟨_, .simple hhandler hsimple⟩

theorem block_succ (hderived : Derived budget) {statement : Statement}
    {machine : Machine} {outcome : Outcome}
    (hrun : runBlock (budget + 1) statement machine = some outcome) :
    ∃ trace, Completes (.block statement) machine trace outcome := by
  rw [runBlock_succ] at hrun
  split at hrun
  · next hcondition =>
    obtain rfl := Option.some.inj hrun
    exact ⟨_, .undecided hcondition⟩
  · next hcondition =>
    obtain rfl := Option.some.inj hrun
    exact ⟨_, .skipped hcondition⟩
  · next hcondition =>
    split at hrun
    · next after hbody =>
      obtain ⟨inside, hscope⟩ := hderived (.scope statement.body) hbody
      split at hrun
      · next hloop =>
        obtain ⟨rest, hblock⟩ := hderived (.block statement) hrun
        exact ⟨_, .again hcondition hloop hscope hblock⟩
      · next hloop =>
        obtain rfl := Option.some.inj hrun
        exact ⟨_, .once hcondition (fun _ => hloop) hscope⟩
    · next hstops =>
      obtain ⟨inside, hscope⟩ := hderived (.scope statement.body) hrun
      refine ⟨_, .once hcondition ?_ hscope⟩
      intro hnext
      exact absurd (by rw [hrun, ← hnext]) (hstops outcome.2)

theorem scope_succ (hderived : Derived budget) {body : List Statement}
    {machine : Machine} {outcome : Outcome}
    (hrun : runScoped (budget + 1) body machine = some outcome) :
    ∃ trace, Completes (.scope body) machine trace outcome := by
  rw [runScoped_succ] at hrun
  obtain ⟨inner, hinner, rfl⟩ := Option.map_eq_some_iff.mp hrun
  obtain ⟨trace, hbody⟩ := hderived (.statements body) hinner
  exact ⟨trace, .scope hbody⟩

theorem call_succ (hderived : Derived budget) {statement : Statement}
    {machine : Machine} {outcome : Outcome}
    (hrun : runCall (budget + 1) statement machine = some outcome) :
    ∃ trace, Completes (.call statement) machine trace outcome := by
  rw [runCall_succ] at hrun
  split at hrun
  · next hcallee =>
    obtain rfl := Option.some.inj hrun
    exact ⟨_, .refused hcallee⟩
  · next procedure hcallee =>
    obtain ⟨inner, hinner, rfl⟩ := Option.map_eq_some_iff.mp hrun
    obtain ⟨inside, hscope⟩ := hderived (.scope procedure.body) hinner
    exact ⟨_, .called hcallee hscope⟩

end Derived

theorem derived (budget : Nat) : Derived budget := by
  induction budget with
  | zero =>
      intro task machine outcome hrun
      cases task <;> contradiction
  | succ budget ih =>
      intro task machine outcome hrun
      cases task with
      | statements _ => exact ih.statements_succ hrun
      | statement _ => exact ih.statement_succ hrun
      | block _ => exact ih.block_succ hrun
      | scope _ => exact ih.scope_succ hrun
      | call _ => exact ih.call_succ hrun

theorem runStatement_of_isSimple {statement : Statement} {handler : Handler}
    (hhandler : statement.kind.handler? = some handler)
    (hsimple : handler.isSimple = true) (machine : Machine) (budget : Nat) :
    runStatement (budget + 1) statement machine =
      some (machine.performed statement handler) := by
  rw [runStatement_succ, hhandler]
  cases handler <;> first | rfl | contradiction

/-- A derivation tells how large a budget is needed: one step more than its
longest part. -/
theorem Completes.exists_budget {task : Task} {machine : Machine}
    {trace : List Activation} {outcome : Outcome}
    (hcompletes : Completes task machine trace outcome) :
    ∃ budget, runTask budget task machine = some outcome := by
  induction hcompletes with
  | nil => exact ⟨1, rfl⟩
  | @next statement later machine after _ _ outcome _ _ ihFirst ihRest =>
      obtain ⟨first, hfirst⟩ := ihFirst
      obtain ⟨rest, hrest⟩ := ihRest
      have hstatement : runStatement (max first rest) statement machine =
          some (.ok .next, after) :=
        runTask_mono (Nat.le_max_left first rest) hfirst
      have hlater : runStatements (max first rest) later after =
          some outcome := runTask_mono (Nat.le_max_right first rest) hrest
      refine ⟨max first rest + 1, ?_⟩
      rw [runTask, runStatements_cons, hstatement]
      exact hlater
  | @stop statement later machine _ outcome _ hstops ih =>
      obtain ⟨budget, hrun⟩ := ih
      refine ⟨budget + 1, ?_⟩
      have hstatement : runStatement budget statement machine =
          some outcome := hrun
      rw [runTask, runStatements_cons, hstatement]
      split
      · next hnext =>
        obtain rfl := Option.some.inj hnext
        contradiction
      · rfl
  | halt hhandler => exact ⟨1, by rw [runTask, runStatement_succ, hhandler]⟩
  | leave hhandler => exact ⟨1, by rw [runTask, runStatement_succ, hhandler]⟩
  | simple hhandler hsimple =>
      exact ⟨1, runStatement_of_isSimple hhandler hsimple _ 0⟩
  | block hhandler _ ih =>
      obtain ⟨budget, hrun⟩ := ih
      refine ⟨budget + 1, ?_⟩
      simp only [runTask] at hrun ⊢
      simp [runStatement_succ, hhandler, hrun]
  | call hhandler _ ih =>
      obtain ⟨budget, hrun⟩ := ih
      refine ⟨budget + 1, ?_⟩
      simp only [runTask] at hrun ⊢
      simp [runStatement_succ, hhandler, hrun]
  | undecided hcondition =>
      exact ⟨1, by rw [runTask, runBlock_succ, hcondition]⟩
  | skipped hcondition =>
      exact ⟨1, by rw [runTask, runBlock_succ, hcondition]⟩
  | @again statement machine after _ _ outcome hcondition hloop _ _ ihBody
      ihRest =>
      obtain ⟨inside, hinside⟩ := ihBody
      obtain ⟨rest, hrest⟩ := ihRest
      have hbody : runScoped (max inside rest) statement.body machine =
          some (.ok .next, after) :=
        runTask_mono (Nat.le_max_left inside rest) hinside
      have hblock : runBlock (max inside rest) statement after =
          some outcome := runTask_mono (Nat.le_max_right inside rest) hrest
      refine ⟨max inside rest + 1, ?_⟩
      rw [runTask, runBlock_succ, hcondition]
      simp [hbody, hloop, hblock]
  | @once statement machine _ outcome hcondition hends _ ih =>
      obtain ⟨budget, hrun⟩ := ih
      have hbody : runScoped budget statement.body machine = some outcome :=
        hrun
      refine ⟨budget + 1, ?_⟩
      rw [runTask, runBlock_succ, hcondition]
      simp only [hbody]
      split
      · next hnext =>
        obtain rfl := Option.some.inj hnext
        rw [if_neg (hends rfl)]
      · rfl
  | scope _ ih =>
      obtain ⟨budget, hrun⟩ := ih
      refine ⟨budget + 1, ?_⟩
      simp only [runTask] at hrun ⊢
      simp [runScoped_succ, hrun]
  | refused hcallee => exact ⟨1, by rw [runTask, runCall_succ, hcallee]⟩
  | called hcallee _ ih =>
      obtain ⟨budget, hrun⟩ := ih
      refine ⟨budget + 1, ?_⟩
      simp only [runTask] at hrun ⊢
      simp [runCall_succ, hcallee, hrun]

/-- A respected relation holds between the start and the end of a derivation. -/
theorem Completes.related {Related : Machine → Machine → Prop}
    (hrespected : Respected Related) {task : Task} {machine : Machine}
    {trace : List Activation} {outcome : Outcome}
    (hcompletes : Completes task machine trace outcome) :
    Related machine outcome.2 := by
  obtain ⟨budget, hrun⟩ := hcompletes.exists_budget
  have hwithin := hrespected.holdsWithin budget
  cases task with
  | statements _ => exact hwithin.statements hrun
  | statement _ => exact hwithin.statement hrun
  | block _ => exact hwithin.block hrun
  | scope _ => exact hwithin.scope hrun
  | call _ => exact hwithin.call hrun

/-- What persists holds on the machines of all activations. -/
theorem Completes.holds {Related : Machine → Machine → Prop}
    (hrespected : Respected Related) {Holds : Machine → Prop}
    (hpersists : Persists Related Holds) {task : Task} {machine : Machine}
    {trace : List Activation} {outcome : Outcome}
    (hcompletes : Completes task machine trace outcome)
    (hstart : Holds machine) :
    ∀ activation ∈ trace, Holds activation.machine := by
  induction hcompletes with
  | nil => simp
  | next hfirst _ ihFirst ihRest =>
      have hafter := hpersists.kept (hfirst.related hrespected) hstart
      exact List.forall_mem_append.mpr ⟨ihFirst hstart, ihRest hafter⟩
  | stop _ _ ih | block _ _ ih | call _ _ ih => exact ih hstart
  | halt _ | leave _ | simple _ _ | undecided _ | skipped _ | refused _ =>
      exact List.forall_mem_singleton.mpr hstart
  | again _ _ hbody _ ihBody ihRest =>
      have hafter := hpersists.kept (hbody.related hrespected) hstart
      have hlater :=
        List.forall_mem_append.mpr ⟨ihBody hstart, ihRest hafter⟩
      exact List.forall_mem_cons.mpr ⟨hstart, hlater⟩
  | once _ _ _ ih => exact List.forall_mem_cons.mpr ⟨hstart, ih hstart⟩
  | scope _ ih => exact ih (hpersists.block hstart)
  | called _ _ ih =>
      have hinside := ih (hpersists.call hstart)
      exact List.forall_mem_cons.mpr ⟨hstart, hinside⟩

/-- The outcome of a program whose statements have come to an outcome. -/
def flushed (outcome : Outcome) : Outcome :=
  match outcome.2.output.flush with
  | .ok () => outcome
  | .error fault => .fault fault outcome.2

theorem flushed_snd (outcome : Outcome) : (flushed outcome).2 = outcome.2 := by
  unfold flushed
  split
  · rfl
  · rfl

/-- A flush that fails takes the place of the result and leaves the machine. -/
theorem flushed_cases {ended outcome : Outcome}
    (hflushed : flushed ended = outcome) :
    ended = outcome ∨
    ∃ fault, outcome.2.output.flush = .error fault ∧
      outcome.1 = .error ⟨fault, none⟩ ∧ ended.2 = outcome.2 := by
  unfold flushed at hflushed
  split at hflushed
  · exact Or.inl hflushed
  · next fault hfails =>
    subst outcome
    exact Or.inr ⟨fault, hfails, rfl, rfl⟩

theorem eq_of_flushed {ended outcome : Outcome}
    (hflushed : flushed ended = outcome)
    (hflush : outcome.2.output.flush = .ok ()) : ended = outcome := by
  rcases flushed_cases hflushed with hsame | ⟨fault, hfails, _⟩
  · exact hsame
  · rw [hflush] at hfails
    contradiction

theorem execute_eq_map (budget : Nat) (program : Program) (machine : Machine) :
    execute budget program machine =
      (runStatements budget program.statements
        (machine.declareArguments program.arguments)).map flushed := by
  simp only [execute]
  rcases runStatements budget program.statements
    (machine.declareArguments program.arguments) with _ | ⟨result, after⟩
  · rfl
  · simp only [flushed, Option.map_some]
    rcases after.output.flush with fault | _
    · rfl
    · rfl

theorem execute_mono {budget more : Nat} (hle : budget ≤ more)
    {program : Program} {machine : Machine} {outcome : Outcome}
    (hrun : execute budget program machine = some outcome) :
    execute more program machine = some outcome := by
  rw [execute_eq_map] at hrun ⊢
  obtain ⟨ended, hstatements, hflushed⟩ := Option.map_eq_some_iff.mp hrun
  rw [runStatements_mono hle hstatements, Option.map_some, hflushed]

/-- A program has at most one outcome. -/
theorem execute_unique {budget other : Nat} {program : Program}
    {machine : Machine} {first second : Outcome}
    (hfirst : execute budget program machine = some first)
    (hsecond : execute other program machine = some second) :
    first = second := by
  have hlarge := execute_mono (Nat.le_max_left budget other) hfirst
  rw [execute_mono (Nat.le_max_right budget other) hsecond] at hlarge
  exact (Option.some.inj hlarge).symm

theorem runsTo_iff_exists_completes {statements : List Statement} {machine : Machine}
    {outcome : Outcome} :
    RunsTo statements machine outcome ↔
      ∃ trace, Completes (.statements statements) machine trace outcome := by
  constructor
  · rintro ⟨budget, hrun⟩
    exact derived budget (.statements statements) hrun
  · rintro ⟨_, hcompletes⟩
    exact hcompletes.exists_budget

/-- A program has the outcomes that its statements come to, flushed. -/
theorem exists_execute_iff {program : Program} {machine : Machine}
    {outcome : Outcome} :
    (∃ budget, execute budget program machine = some outcome) ↔
      ∃ trace ended,
        Completes (.statements program.statements)
          (machine.declareArguments program.arguments) trace ended ∧
        flushed ended = outcome := by
  simp only [execute_eq_map, Option.map_eq_some_iff]
  constructor
  · rintro ⟨budget, ended, hrun, hflushed⟩
    obtain ⟨trace, hcompletes⟩ :=
      derived budget (.statements program.statements) hrun
    exact ⟨trace, ended, hcompletes, hflushed⟩
  · rintro ⟨trace, ended, hcompletes, hflushed⟩
    obtain ⟨budget, hrun⟩ := hcompletes.exists_budget
    exact ⟨budget, ended, hrun, hflushed⟩

end Machine

end LineScript
