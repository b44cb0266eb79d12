/-
Programs that run one after another.  Statements that follow others run on the
machine that those leave, if control comes to them, and not at all if it does not.
A program leaves a machine on which the next one can go on as if it had always
been part of the first: the scopes, bindings and calls are restored, and the
arguments are there, so they are not declared a second time.
-/
import LineScript.Proofs.OutputGrowth

namespace LineScript

/-- The statements of two programs in a row, with the arguments of the first. -/
def Program.followedBy (first second : Program) : Program where
  statements := first.statements ++ second.statements
  arguments := first.arguments

namespace Machine

section Statements

/-- What comes of an outcome when statements follow: where control comes to them,
they run, and every other outcome stays. -/
inductive Continues (later : List Statement) : Outcome → Outcome → Prop
  | next {after : Machine} {outcome : Outcome} :
    RunsTo later after outcome → Continues later (.ok .next, after) outcome
  | stop {outcome : Outcome} :
    outcome.1 ≠ .ok .next → Continues later outcome outcome

variable {front back : List Statement} {machine : Machine} {outcome : Outcome}

theorem runsTo_nil_iff : RunsTo [] machine outcome ↔ outcome = (.ok .next, machine) := by
  constructor
  · intro hruns
    exact hruns.unique ⟨1, rfl⟩
  · rintro rfl
    exact ⟨1, rfl⟩

/-- Statements run like the first of them, continued with the others. -/
theorem runsTo_cons_iff {statement : Statement} {later : List Statement} :
    RunsTo (statement :: later) machine outcome ↔
      ∃ trace middle, Completes (.statement statement) machine trace middle ∧
        Continues later middle outcome := by
  rw [runsTo_iff_exists_completes]
  constructor
  · rintro ⟨trace, hcompletes⟩
    cases hcompletes with
    | next hfirst hlater =>
        have hruns := runsTo_iff_exists_completes.mpr ⟨_, hlater⟩
        exact ⟨_, _, hfirst, .next hruns⟩
    | stop hfirst hstops => exact ⟨_, _, hfirst, .stop hstops⟩
  · rintro ⟨trace, middle, hfirst, hcontinues⟩
    cases hcontinues with
    | next hruns =>
        obtain ⟨rest, hlater⟩ := runsTo_iff_exists_completes.mp hruns
        exact ⟨_, .next hfirst hlater⟩
    | stop hstops => exact ⟨_, .stop hfirst hstops⟩

/-- The statements in front run, continued with those behind them. -/
theorem runsTo_append_iff :
    RunsTo (front ++ back) machine outcome ↔
      ∃ middle, RunsTo front machine middle ∧
        Continues back middle outcome := by
  induction front generalizing machine outcome with
  | nil =>
      rw [List.nil_append]
      constructor
      · intro hruns
        exact ⟨_, runsTo_nil_iff.mpr rfl, .next hruns⟩
      · rintro ⟨middle, hnil, hcontinues⟩
        obtain rfl := runsTo_nil_iff.mp hnil
        cases hcontinues with
        | next hruns => exact hruns
        | stop hstops => contradiction
  | cons statement front ih =>
      rw [List.cons_append]
      constructor
      · intro hruns
        obtain ⟨trace, first, hfirst, hcontinues⟩ := runsTo_cons_iff.mp hruns
        cases hcontinues with
        | next hrest =>
            obtain ⟨middle, hfront, hback⟩ := ih.mp hrest
            exact ⟨middle,
              runsTo_cons_iff.mpr ⟨trace, _, hfirst, .next hfront⟩, hback⟩
        | stop hstops =>
            exact ⟨outcome,
              runsTo_cons_iff.mpr ⟨trace, _, hfirst, .stop hstops⟩,
              .stop hstops⟩
      · rintro ⟨middle, hruns, hback⟩
        obtain ⟨trace, first, hfirst, hcontinues⟩ := runsTo_cons_iff.mp hruns
        refine runsTo_cons_iff.mpr ⟨trace, first, hfirst, ?_⟩
        cases hcontinues with
        | next hfront => exact .next (ih.mpr ⟨middle, hfront, hback⟩)
        | stop hstops =>
            -- The first statement ended the run, so nothing behind it ran.
            cases hback with
            | next _ => contradiction
            | stop _ => exact .stop hstops

end Statements

section Arguments

variable {machine after : Machine}

theorem contains_declareArguments (machine : Machine) (arguments : Arguments) :
    (machine.declareArguments arguments).store.contains Word.arguments =
      true := by
  simp only [declareArguments, Store.declare]
  cases hdeclare : machine.store.declare? Word.arguments
      ⟨argumentValues arguments, true⟩ with
  | none => simpa [Store.declare?] using hdeclare
  | some store =>
      have hget := Store.get?_of_declare? hdeclare Word.arguments
      rw [if_pos rfl] at hget
      simp [Store.contains, hget]

/-- On a machine that has arguments, others are not declared. -/
theorem declareArguments_of_contains (arguments : Arguments)
    (hheld : machine.store.contains Word.arguments = true) :
    machine.declareArguments arguments = machine := by
  simp [declareArguments, Store.declare, Store.declare?, hheld]

theorem Resumes.contains {name : String} (hresumes : Resumes machine after)
    (hheld : machine.store.contains name = true) :
    after.store.contains name = true := by
  obtain ⟨held, hget⟩ := Option.isSome_iff_exists.mp hheld
  obtain ⟨now, hnow, _⟩ := hresumes.store.kept _ _ hget
  exact Option.isSome_iff_exists.mpr ⟨now, hnow⟩

/-- Statements leave the arguments of their program where they are. -/
theorem declareArguments_of_runsTo {statements : List Statement}
    {outcome : Outcome} (given arguments : Arguments)
    (hruns : RunsTo statements (machine.declareArguments given) outcome) :
    outcome.2.declareArguments arguments = outcome.2 := by
  obtain ⟨budget, hrun⟩ := hruns
  have hresumes := (respected_resumes.holdsWithin budget).statements hrun
  have hheld := hresumes.contains (contains_declareArguments machine given)
  exact declareArguments_of_contains arguments hheld

end Arguments

/-- Two programs in a row come to what the second one comes to on the machine that
the first one leaves, if that ends with control at its end.  If it ends in another
way, they come to just that outcome, and if it does not end, they do not either.
The arguments of the second program are never used. -/
theorem executes_followedBy {machine : Machine}
    (hflush : machine.output.flush = .ok ()) (first second : Program) :
    (∀ after outcome, Executes first machine (.ok .next, after) →
      (Executes (first.followedBy second) machine outcome ↔
        Executes second after outcome)) ∧
    (∀ ended outcome, Executes first machine ended → ended.1 ≠ .ok .next →
      (Executes (first.followedBy second) machine outcome ↔
        outcome = ended)) ∧
    (∀ outcome, Executes (first.followedBy second) machine outcome →
      ∃ ended, Executes first machine ended) := by
  have hboth {outcome : Outcome} :
      Executes (first.followedBy second) machine outcome ↔
        ∃ middle, RunsTo first.statements
            (machine.declareArguments first.arguments) middle ∧
          Continues second.statements middle outcome :=
    (executes_iff_runsTo hflush).trans runsTo_append_iff
  refine ⟨?_, ?_, ?_⟩
  · intro after outcome hfirst
    obtain ⟨budget, hrun⟩ := hfirst
    have hflushes := (flush_of_execute hrun).trans hflush
    have hruns := (executes_iff_runsTo hflush).mp ⟨budget, hrun⟩
    have harguments :=
      declareArguments_of_runsTo first.arguments second.arguments hruns
    rw [hboth, executes_iff_runsTo hflushes, harguments]
    constructor
    · rintro ⟨middle, hmiddle, hcontinues⟩
      obtain rfl := hmiddle.unique hruns
      cases hcontinues with
      | next hsecond => exact hsecond
      | stop hstops => contradiction
    · intro hsecond
      exact ⟨_, hruns, .next hsecond⟩
  · intro ended outcome hfirst hstops
    have hruns := (executes_iff_runsTo hflush).mp hfirst
    rw [hboth]
    constructor
    · rintro ⟨middle, hmiddle, hcontinues⟩
      obtain rfl := hmiddle.unique hruns
      cases hcontinues with
      | next _ => contradiction
      | stop _ => rfl
    · rintro rfl
      exact ⟨_, hruns, .stop hstops⟩
  · intro outcome hexecutes
    obtain ⟨middle, hmiddle, _⟩ := hboth.mp hexecutes
    exact ⟨middle, (executes_iff_runsTo hflush).mpr hmiddle⟩

/-- A program that declares a word and defines a procedure that prints one. -/
def definesGreeting : Program where
  statements :=
    [{ kind := .declare, line := ["var", "word", "=", "hi"], lineNo := 1
       expression := { left := "hi" } },
      { kind := .define, line := ["function", "greet", ":", "p", "\x7b"]
        lineNo := 2
        expression := { left := "p" }
        body :=
          [{ kind := .printLn, line := ["println", "p"], lineNo := 3
             expression := { left := "p" } }] }]
  arguments := .ofList ["one"]

/-- A program that uses the word and the procedure, and then returns. -/
def greetsAndReturns : Program where
  statements :=
    [{ kind := .call, line := ["call", "greet", "word"], lineNo := 1
       expression := { left := "word" } },
      { kind := .leave, line := ["return"], lineNo := 2 }]
  arguments := .ofList ["two"]

/-- What the first program leaves for the second one, with its own argument. -/
def afterDefinition : Machine where
  store :=
    { innermost := [(Word.arguments, ⟨.array [.text "one"], true⟩),
        ("word", ⟨.text "hi", false⟩)] }
  procedures :=
    [("greet", ⟨{ left := "p" },
      [{ kind := .printLn, line := ["println", "p"], lineNo := 3
         expression := { left := "p" } }]⟩)]

def afterGreeting : Machine :=
  { afterDefinition with
    store := { afterDefinition.store with log := #[.entering 1] }
    output := { written := "hi\n" } }

/-- Defining and greeting gives the same in one program, with the argument of the
first one.  In the other order nothing behind the return is run. -/
theorem greeting_in_one_program :
    Executes definesGreeting {} (.ok .next, afterDefinition) ∧
    Executes greetsAndReturns afterDefinition (.ok .leave, afterGreeting) ∧
    Executes (definesGreeting.followedBy greetsAndReturns) {}
      (.ok .leave, afterGreeting) ∧
    Executes (greetsAndReturns.followedBy definesGreeting) afterDefinition
      (.ok .leave, afterGreeting) := by
  have hdefines : Executes definesGreeting {} (.ok .next, afterDefinition) :=
    ⟨9, rfl⟩
  have hgreets : Executes greetsAndReturns afterDefinition
      (.ok .leave, afterGreeting) := ⟨9, rfl⟩
  have hempty : (Machine.output {}).flush = .ok () := rfl
  have hdefined : afterDefinition.output.flush = .ok () := rfl
  have hnext :=
    (executes_followedBy hempty definesGreeting greetsAndReturns).1
  have hstop :=
    (executes_followedBy hdefined greetsAndReturns definesGreeting).2.1
  exact ⟨hdefines, hgreets, (hnext _ _ hdefines).mpr hgreets,
    (hstop _ _ hgreets (by simp)).mpr rfl⟩

end Machine

end LineScript
