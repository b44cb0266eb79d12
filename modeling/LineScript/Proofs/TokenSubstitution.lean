/-
Calls substitute tokens.  To run a body under the bindings of a call is to run the
body in which every token is replaced by what it stands for, once and at the same
time, under no bindings.  Both runs are compared step by step within the same
budget.
-/
import LineScript.Proofs.RenamedStatement
import LineScript.Proofs.ScopeBalance

namespace LineScript

/-- The same flow, or errors that are alike at the same line. -/
inductive SameEnd : Except RunError Flow → Except RunError Flow → Prop
  | flow (flow : Flow) : SameEnd (.ok flow) (.ok flow)
  | error {left right : RunError} :
    left.fault.Alike right.fault → left.line = right.line →
      SameEnd (.error left) (.error right)

namespace Machine

/-- No outcome on both sides, or the same end on machines that differ in their
bindings. -/
inductive SameOutcome (bindings : List Bindings) :
    Option Outcome → Option Outcome → Prop
  | missing : SameOutcome bindings none none
  | ended {left right : Except RunError Flow} (machine : Machine) :
    SameEnd left right →
      SameOutcome bindings (some (left, machine))
        (some (right, machine.rebind bindings))

theorem SameOutcome.of_rebind {bindings : List Bindings}
    {result : Except RunError Flow} (machine : Machine) :
    SameOutcome bindings (some (result, machine))
      (some (result, machine.rebind bindings)) := by
  apply SameOutcome.ended
  cases result with
  | error error => exact .error (.same error.fault) rfl
  | ok flow => exact .flow flow

theorem SameOutcome.atLine {bindings : List Bindings}
    {left right : Option Outcome} (hsame : SameOutcome bindings left right)
    (line : Nat) :
    SameOutcome bindings (left.map (·.atLine line))
      (right.map (·.atLine line)) := by
  cases hsame with
  | missing => exact .missing
  | ended machine hend =>
      apply SameOutcome.ended
      cases hend with
      | flow flow => exact .flow flow
      | error halike hline =>
          refine .error halike ?_
          simp [RunError.atLine, hline]

theorem Renames.performed {rename : String → String} {machine : Machine}
    {bindings : List Bindings} (hrenames : Renames rename machine bindings)
    (statement : Statement) (handler : Handler)
    (hdefine : rename = id ∨ handler ≠ .define) :
    SameOutcome bindings (some (machine.performed statement handler))
      (some ((machine.rebind bindings).performed
        (statement.mapTokens rename) handler)) := by
  have hsame := hrenames.perform statement handler hdefine
  unfold Machine.performed
  rw [Statement.lineNo_mapTokens]
  generalize machine.perform statement handler = left at hsame ⊢
  generalize (machine.rebind bindings).perform (statement.mapTokens rename)
    handler = right at hsame ⊢
  cases hsame with
  | ok after => exact .ended after (.flow .next)
  | error after halike => exact .ended after (.error halike rfl)

/-- Definitions stay as they are: nothing is renamed, or there are none. -/
def KeepsDefinitions (rename : String → String)
    (statements : List Statement) : Prop :=
  rename = id ∨ Statement.definesNothingAll statements = true

namespace KeepsDefinitions

variable {rename : String → String} {statement : Statement}
  {later : List Statement}

theorem head (hkeeps : KeepsDefinitions rename (statement :: later)) :
    KeepsDefinitions rename [statement] := by
  refine hkeeps.imp_right ?_
  intro hnothing
  simp_all [Statement.definesNothingAll]

theorem tail (hkeeps : KeepsDefinitions rename (statement :: later)) :
    KeepsDefinitions rename later := by
  refine hkeeps.imp_right ?_
  intro hnothing
  simp_all [Statement.definesNothingAll]

theorem body (hkeeps : KeepsDefinitions rename [statement]) :
    KeepsDefinitions rename statement.body := by
  refine hkeeps.imp_right ?_
  intro hnothing
  simp_all [Statement.definesNothingAll, Statement.definesNothing_iff]

theorem handler (hkeeps : KeepsDefinitions rename [statement])
    {handler : Handler} (hhandler : statement.kind.handler? = some handler) :
    rename = id ∨ handler ≠ .define := by
  refine hkeeps.imp_right ?_
  rintro hnothing rfl
  simp only [Statement.definesNothingAll, Bool.and_true,
    Statement.definesNothing_iff] at hnothing
  cases hkind : statement.kind <;>
    simp_all [StatementKind.handler?]

end KeepsDefinitions

/-- Within a budget, renamed statements have the same outcomes. -/
structure Lockstep (budget : Nat) : Prop where
  statements : ∀ {rename machine bindings statements},
    Renames rename machine bindings → KeepsDefinitions rename statements →
      SameOutcome bindings (runStatements budget statements machine)
        (runStatements budget (Statement.mapTokensAll rename statements)
          (machine.rebind bindings))
  statement : ∀ {rename machine bindings statement},
    Renames rename machine bindings → KeepsDefinitions rename [statement] →
      SameOutcome bindings (runStatement budget statement machine)
        (runStatement budget (statement.mapTokens rename)
          (machine.rebind bindings))
  block : ∀ {rename machine bindings statement},
    Renames rename machine bindings → KeepsDefinitions rename [statement] →
      SameOutcome bindings (runBlock budget statement machine)
        (runBlock budget (statement.mapTokens rename)
          (machine.rebind bindings))
  scope : ∀ {rename machine bindings body},
    Renames rename machine bindings → KeepsDefinitions rename body →
      SameOutcome bindings (runScoped budget body machine)
        (runScoped budget (Statement.mapTokensAll rename body)
          (machine.rebind bindings))
  call : ∀ {rename machine bindings statement},
    Renames rename machine bindings →
      SameOutcome bindings (runCall budget statement machine)
        (runCall budget (statement.mapTokens rename)
          (machine.rebind bindings))

namespace Lockstep

variable {budget : Nat} {rename : String → String} {machine : Machine}
  {bindings : List Bindings}

theorem statements_succ (hlockstep : Lockstep budget)
    {statements : List Statement}
    (hrenames : Renames rename machine bindings)
    (hkeeps : KeepsDefinitions rename statements) :
    SameOutcome bindings (runStatements (budget + 1) statements machine)
      (runStatements (budget + 1) (Statement.mapTokensAll rename statements)
        (machine.rebind bindings)) := by
  cases statements with
  | nil =>
      rw [Statement.mapTokensAll]
      exact .of_rebind machine
  | cons statement later =>
      have hfirst := hlockstep.statement hrenames hkeeps.head
      rw [Statement.mapTokensAll, runStatements_cons, runStatements_cons]
      generalize hleft : runStatement budget statement machine = left
        at hfirst ⊢
      generalize runStatement budget (statement.mapTokens rename)
        (machine.rebind bindings) = right at hfirst ⊢
      cases hfirst with
      | missing => exact .missing
      | ended after hend =>
          have hresumes :=
            (respected_resumes.holdsWithin budget).statement hleft
          cases hend with
          | error halike hline => exact .ended after (.error halike hline)
          | flow flow =>
              cases flow with
              | next =>
                  exact hlockstep.statements
                    (hrenames.of_bindings_eq hresumes.bindings) hkeeps.tail
              | leave => exact .ended after (.flow .leave)
              | halt => exact .ended after (.flow .halt)

theorem statement_succ (hlockstep : Lockstep budget) {statement : Statement}
    (hrenames : Renames rename machine bindings)
    (hkeeps : KeepsDefinitions rename [statement]) :
    SameOutcome bindings (runStatement (budget + 1) statement machine)
      (runStatement (budget + 1) (statement.mapTokens rename)
        (machine.rebind bindings)) := by
  rw [runStatement_succ, runStatement_succ, Statement.kind_mapTokens,
    Statement.lineNo_mapTokens]
  split
  · exact .of_rebind machine
  · exact .of_rebind machine
  · exact (hlockstep.block hrenames hkeeps).atLine _
  · exact (hlockstep.call hrenames).atLine _
  · next handler _ _ _ hhandler =>
    exact hrenames.performed statement handler (hkeeps.handler hhandler)

theorem block_succ (hlockstep : Lockstep budget) {statement : Statement}
    (hrenames : Renames rename machine bindings)
    (hkeeps : KeepsDefinitions rename [statement]) :
    SameOutcome bindings (runBlock (budget + 1) statement machine)
      (runBlock (budget + 1) (statement.mapTokens rename)
        (machine.rebind bindings)) := by
  have hbody := hlockstep.scope hrenames hkeeps.body
  rw [runBlock_succ, runBlock_succ, hrenames.blockCondition,
    Statement.kind_mapTokens, Statement.body_mapTokens]
  split
  · exact .of_rebind machine
  · exact .of_rebind machine
  · generalize hleft : runScoped budget statement.body machine = left
      at hbody ⊢
    generalize runScoped budget (Statement.mapTokensAll rename statement.body)
      (machine.rebind bindings) = right at hbody ⊢
    cases hbody with
    | missing => exact .missing
    | ended after hend =>
        have hresumes := (respected_resumes.holdsWithin budget).scope hleft
        cases hend with
        | error halike hline => exact .ended after (.error halike hline)
        | flow flow =>
            cases flow with
            | next =>
                simp only
                split
                · exact hlockstep.block
                    (hrenames.of_bindings_eq hresumes.bindings) hkeeps
                · exact .ended after (.flow .next)
            | leave => exact .ended after (.flow .leave)
            | halt => exact .ended after (.flow .halt)

theorem scope_succ (hlockstep : Lockstep budget) {body : List Statement}
    (hrenames : Renames rename machine bindings)
    (hkeeps : KeepsDefinitions rename body) :
    SameOutcome bindings (runScoped (budget + 1) body machine)
      (runScoped (budget + 1) (Statement.mapTokensAll rename body)
        (machine.rebind bindings)) := by
  have hinside : Renames rename machine.enterBlock bindings :=
    hrenames.of_bindings_eq rfl
  have hbody := hlockstep.statements hinside hkeeps
  have henter : (machine.rebind bindings).enterBlock =
      machine.enterBlock.rebind bindings := rfl
  rw [runScoped_succ, runScoped_succ, henter]
  generalize runStatements budget body machine.enterBlock = left at hbody ⊢
  generalize runStatements budget (Statement.mapTokensAll rename body)
    (machine.enterBlock.rebind bindings) = right at hbody ⊢
  cases hbody with
  | missing => exact .missing
  | ended after hend => exact .ended after.exitBlock hend

/-- The callee sees the same bindings on both sides, and nothing of those of its
caller. -/
theorem call_succ (hlockstep : Lockstep budget) {statement : Statement}
    (hrenames : Renames rename machine bindings) :
    SameOutcome bindings (runCall (budget + 1) statement machine)
      (runCall (budget + 1) (statement.mapTokens rename)
        (machine.rebind bindings)) := by
  rw [runCall_succ, runCall_succ, hrenames.callee,
    Statement.expression_mapTokens]
  split
  · exact .of_rebind machine
  · next procedure _ =>
    rw [hrenames.bindArguments]
    generalize machine.bindArguments procedure.parameters
      statement.expression = bound
    have hinside : Renames id (machine.enterCall bound) (bound :: bindings) :=
      .same_top rfl
    have hkeeps : KeepsDefinitions id procedure.body := Or.inl rfl
    have hbody := hlockstep.scope hinside hkeeps
    rw [Statement.mapTokensAll_id] at hbody
    have henter : (machine.rebind bindings).enterCall bound =
        (machine.enterCall bound).rebind (bound :: bindings) := rfl
    rw [henter]
    generalize runScoped budget procedure.body (machine.enterCall bound) =
      left at hbody ⊢
    generalize runScoped budget procedure.body
      ((machine.enterCall bound).rebind (bound :: bindings)) =
        right at hbody ⊢
    cases hbody with
    | missing => exact .missing
    | ended after hend =>
        apply SameOutcome.ended after.exitCall
        cases hend with
        | flow flow => exact .flow flow.afterCall
        | error halike hline => exact .error halike hline

end Lockstep

theorem lockstep (budget : Nat) : Lockstep budget := by
  induction budget with
  | zero => constructor <;> intros <;> exact .missing
  | succ budget ih =>
      exact ⟨ih.statements_succ, ih.statement_succ, ih.block_succ,
        ih.scope_succ, ih.call_succ⟩

end Machine

/-- The token that a token stands for under the bindings of one call. -/
def Bindings.image (bound : Bindings) (token : String) : String :=
  (bound.lookup token).getD token

/-- Replaces every token of some statements by its image, once and all at the
same time. -/
def Statement.substituteAll (bound : Bindings)
    (statements : List Statement) : List Statement :=
  mapTokensAll bound.image statements

namespace Machine

/-- Bindings between tokens that are not empty are replaced by no bindings. -/
theorem renames_image {machine : Machine} {bound : Bindings}
    {below other : List Bindings}
    (hbound : ∀ formal token, bound.lookup formal = some token →
      formal ≠ "" ∧ token ≠ "") :
    Renames bound.image (machine.rebind (bound :: below)) ([] :: other) := by
  refine ⟨fun _ => rfl, ?_⟩
  intro token
  cases hlookup : bound.lookup token with
  | none => simp [Bindings.image, hlookup]
  | some image =>
      obtain ⟨hformal, himage⟩ := hbound token image hlookup
      simp [Bindings.image, hlookup, hformal, himage]

/-- To run statements without definitions under the bindings of a call is to run
them, with every token substituted, under no bindings.  One run ends exactly when
the other does, and then both end in the same way: with the same flow, or with
errors of one kind at one line, and with the same streams, variables, scope
events and procedures. -/
theorem run_under_bindings (machine : Machine) (bound : Bindings)
    (below : List Bindings) (body : List Statement)
    (hbound : ∀ formal token, bound.lookup formal = some token →
      formal ≠ "" ∧ token ≠ "")
    (hbody : Statement.definesNothingAll body = true) :
    ((∃ outcome, RunsTo body (machine.rebind (bound :: below)) outcome) ↔
      ∃ outcome, RunsTo (Statement.substituteAll bound body)
        (machine.rebind ([] :: below)) outcome) ∧
    ∀ left right, RunsTo body (machine.rebind (bound :: below)) left →
      RunsTo (Statement.substituteAll bound body)
        (machine.rebind ([] :: below)) right →
      SameEnd left.1 right.1 ∧
      right.2.output = left.2.output ∧ right.2.input = left.2.input ∧
      right.2.store = left.2.store ∧
      right.2.procedures = left.2.procedures := by
  have hrenames : Renames bound.image (machine.rebind (bound :: below))
      ([] :: below) := renames_image hbound
  have hsame : ∀ budget, SameOutcome ([] :: below)
      (runStatements budget body (machine.rebind (bound :: below)))
      (runStatements budget (Statement.substituteAll bound body)
        (machine.rebind ([] :: below))) := by
    intro budget
    exact (lockstep budget).statements hrenames (Or.inr hbody)
  refine ⟨⟨?_, ?_⟩, ?_⟩
  · rintro ⟨outcome, budget, hrun⟩
    have hsame := hsame budget
    rw [hrun] at hsame
    generalize hright : runStatements budget _ _ = right at hsame
    cases hsame with
    | ended after hend => exact ⟨_, budget, hright⟩
  · rintro ⟨outcome, budget, hrun⟩
    have hsame := hsame budget
    rw [hrun] at hsame
    generalize hleft : runStatements budget body _ = left at hsame
    cases hsame with
    | ended after hend => exact ⟨_, budget, hleft⟩
  · rintro left right ⟨budget, hleft⟩ hright
    have hsame := hsame budget
    rw [hleft] at hsame
    generalize hother : runStatements budget _ _ = other at hsame
    cases hsame with
    | ended after hend =>
        obtain rfl := RunsTo.unique hright ⟨budget, hother⟩
        exact ⟨hend, rfl, rfl, rfl, rfl⟩

/-- A call under a condition, to be run where `p` stands for `x` and `q` for
`p`. -/
def guardedCall : Statement where
  kind := .branch
  line := ["if", "q", "\x7b"]
  lineNo := 2
  expression := { left := "q" }
  body :=
    [{ kind := .call, line := ["call", "f", "p"], lineNo := 3,
       expression := { left := "p" } }]

/-- A machine on which `f` makes its parameter true. -/
def settingMachine : Machine where
  store := { innermost := [("p", ⟨.bool true, false⟩), ("x", ⟨.int 0, false⟩)] }
  procedures :=
    [("f", ⟨{ left := "a" },
      [{ kind := .assign, line := ["a", "=", "true"], lineNo := 1,
         expression := { left := "true" } }]⟩)]

theorem guardedCall_under_bindings :
    ∃ left right,
      RunsTo [guardedCall]
        (settingMachine.rebind [[("p", "x"), ("q", "p")]]) left ∧
      RunsTo (Statement.substituteAll [("p", "x"), ("q", "p")] [guardedCall])
        (settingMachine.rebind [[]]) right ∧
      left.2.store.value? "x" = some (.bool true) ∧
      SameEnd left.1 right.1 ∧ right.2.store = left.2.store := by
  let after : Machine := { settingMachine with
    store := {
      innermost := [("p", ⟨.bool true, false⟩), ("x", ⟨.bool true, false⟩)]
      log := #[.entering 1, .entering 2] } }
  have hleft : RunsTo [guardedCall]
      (settingMachine.rebind [[("p", "x"), ("q", "p")]])
      (.ok .next, after.rebind [[("p", "x"), ("q", "p")]]) := ⟨12, rfl⟩
  have hright : RunsTo
      (Statement.substituteAll [("p", "x"), ("q", "p")] [guardedCall])
      (settingMachine.rebind [[]]) (.ok .next, after.rebind [[]]) := ⟨12, rfl⟩
  have hbound : ∀ formal token,
      List.lookup formal [("p", "x"), ("q", "p")] = some token →
      formal ≠ "" ∧ token ≠ "" := by
    intro formal token hlookup
    simp only [List.lookup_cons] at hlookup
    grind
  obtain ⟨hend, _, _, hstore, _⟩ := (run_under_bindings settingMachine
    [("p", "x"), ("q", "p")] [] [guardedCall] hbound (by decide)).2 _ _
    hleft hright
  exact ⟨_, _, hleft, hright, rfl, hend, hstore⟩

end Machine

end LineScript
