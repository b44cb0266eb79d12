/-
Constants never change.  Every write goes to a variable that is not constant at
that time, and no write makes a constant, so a constant keeps its value through
blocks, calls and failures.  The array of the external arguments is such a
constant: the first program of a session declares it, and it is there from then
on.
-/
import LineScript.Proofs.ScopeBalance

namespace LineScript

namespace Machine

theorem declareArguments_resumes (machine : Machine) (arguments : Arguments) :
    Resumes machine (machine.declareArguments arguments) := by
  have hedits := machine.store.edits_declare Word.arguments
    ⟨argumentValues arguments, true⟩
  exact ⟨.of_edits hedits, rfl, rfl, rfl⟩

/-- A program runs its statements on a machine that has its arguments. -/
theorem exists_run_of_execute {budget : Nat} {program : Program}
    {machine : Machine} {outcome : Outcome}
    (hrun : execute budget program machine = some outcome) :
    ∃ result, runStatements budget program.statements
      (machine.declareArguments program.arguments) =
        some (result, outcome.2) := by
  simp only [execute] at hrun
  split at hrun
  · contradiction
  · next result after hstatements =>
    split at hrun
    · obtain rfl := Option.some.inj hrun
      exact ⟨result, hstatements⟩
    · obtain rfl := Option.some.inj hrun
      exact ⟨result, hstatements⟩

/-- A relation that every construct respects, and the declaration of arguments
too, holds along every program. -/
theorem execute_related {Related : Machine → Machine → Prop}
    (hrespected : Respected Related)
    (harguments : ∀ machine arguments,
      Related machine (machine.declareArguments arguments))
    {budget : Nat} {program : Program} {machine : Machine} {outcome : Outcome}
    (hrun : execute budget program machine = some outcome) :
    Related machine outcome.2 := by
  obtain ⟨result, hstatements⟩ := exists_run_of_execute hrun
  have hstarted := harguments machine program.arguments
  have hended := (hrespected.holdsWithin budget).statements hstatements
  exact hrespected.trans hstarted hended

theorem execute_resumes {budget : Nat} {program : Program}
    {machine : Machine} {outcome : Outcome}
    (hrun : execute budget program machine = some outcome) :
    Resumes machine outcome.2 :=
  execute_related respected_resumes declareArguments_resumes hrun

/-- A machine for a new session: nothing is declared, defined or called. -/
def fresh (log : Array ScopeEvent) (callLimit : Nat) (input : InputStream)
    (output : OutputStream) : Machine where
  store := { log }
  callLimit := callLimit
  input := input
  output := output

/-- The machines of a session that runs programs one after another: those inside
the runs, and those at the ends of the programs. -/
inductive SessionReaches : List Program → Machine → Machine → Prop
  | inside {program : Program} {later : List Program}
      {machine point : Machine} :
    Reaches program.statements (machine.declareArguments program.arguments)
      point → SessionReaches (program :: later) machine point
  | ended {budget : Nat} {program : Program} {later : List Program}
      {machine : Machine} {outcome : Outcome} :
    execute budget program machine = some outcome →
      SessionReaches (program :: later) machine outcome.2
  | later {budget : Nat} {program : Program} {later : List Program}
      {machine point : Machine} {outcome : Outcome} :
    execute budget program machine = some outcome →
      SessionReaches later outcome.2 point →
      SessionReaches (program :: later) machine point

/-- A constant with this name and value is in the store. -/
def HasConstant (name : String) (value : Value) (machine : Machine) : Prop :=
  machine.store.get? name = some ⟨value, true⟩

theorem persists_hasConstant (name : String) (value : Value) :
    Persists Resumes (HasConstant name value) where
  kept hresumes hheld := by
    obtain ⟨now, hnow, hkeeps⟩ := hresumes.store.kept _ _ hheld
    rw [hkeeps.eq_of_constant rfl] at hnow
    exact hnow
  block hheld := hheld
  call hheld := hheld

/-- What persists holds on all machines of a session. -/
theorem SessionReaches.holds {Related : Machine → Machine → Prop}
    (hrespected : Respected Related)
    (harguments : ∀ machine arguments,
      Related machine (machine.declareArguments arguments))
    {Holds : Machine → Prop} (hpersists : Persists Related Holds)
    {programs : List Program} {machine point : Machine}
    (hreaches : SessionReaches programs machine point)
    (hstart : Holds machine) : Holds point := by
  induction hreaches with
  | inside hinside =>
      apply hinside.holds hrespected hpersists
      exact hpersists.kept (harguments _ _) hstart
  | ended hrun =>
      exact hpersists.kept (execute_related hrespected harguments hrun) hstart
  | later hrun _ ih =>
      apply ih
      exact hpersists.kept (execute_related hrespected harguments hrun) hstart

theorem SessionReaches.hasConstant {name : String} {value : Value}
    {programs : List Program} {machine point : Machine}
    (hreaches : SessionReaches programs machine point)
    (hstart : HasConstant name value machine) :
    HasConstant name value point :=
  hreaches.holds respected_resumes declareArguments_resumes
    (persists_hasConstant name value) hstart

/-- The first program of a session declares its arguments. -/
theorem SessionReaches.hasConstant_arguments {log : Array ScopeEvent}
    {callLimit : Nat} {input : InputStream} {output : OutputStream}
    {first : Program} {later : List Program} {point : Machine}
    (hreaches : SessionReaches (first :: later)
      (fresh log callLimit input output) point) :
    HasConstant Word.arguments (argumentValues first.arguments) point := by
  have hpersists :=
    persists_hasConstant Word.arguments (argumentValues first.arguments)
  have hdeclared : HasConstant Word.arguments (argumentValues first.arguments)
      ((fresh log callLimit input output).declareArguments first.arguments) :=
    rfl
  have hended : ∀ {budget outcome},
      execute budget first (fresh log callLimit input output) = some outcome →
      HasConstant Word.arguments (argumentValues first.arguments)
        outcome.2 := by
    intro budget outcome hrun
    obtain ⟨_, hstatements⟩ := exists_run_of_execute hrun
    have hresumes :=
      (respected_resumes.holdsWithin budget).statements hstatements
    exact hpersists.kept hresumes hdeclared
  cases hreaches with
  | inside hinside => exact hinside.holds respected_resumes hpersists hdeclared
  | ended hrun => exact hended hrun
  | later hrun hlater => exact hlater.hasConstant (hended hrun)

end Machine

/-- Every constant is the same constant afterwards, and no other variable has
become one. -/
def Store.KeepsConstants (before after : Store) : Prop :=
  ∀ name held, before.get? name = some held →
    ∃ now, after.get? name = some now ∧
      (held.constant = true → now = held) ∧
      (held.constant = false → now.constant = false)

theorem Store.Extends.keepsConstants {before after : Store}
    (hextends : before.Extends after) : before.KeepsConstants after := by
  intro name held hheld
  obtain ⟨now, hnow, hkeeps⟩ := hextends.kept name held hheld
  refine ⟨now, hnow, hkeeps.eq_of_constant, ?_⟩
  intro hvariable
  rw [hkeeps.constant, hvariable]

namespace Machine

/-- Whatever runs on whatever machine, and however it ends, constants stay what
they are.  In particular the arguments of the first program of a session are
there on all machines of the session. -/
theorem constants_never_change :
    (∀ budget statement machine outcome,
      runStatement budget statement machine = some outcome →
      machine.store.KeepsConstants outcome.2.store) ∧
    (∀ statements machine outcome, RunsTo statements machine outcome →
      machine.store.KeepsConstants outcome.2.store) ∧
    (∀ budget program machine outcome,
      execute budget program machine = some outcome →
      machine.store.KeepsConstants outcome.2.store) ∧
    (∀ log callLimit input output first later point,
      SessionReaches (first :: later) (fresh log callLimit input output)
        point →
      point.store.get? Word.arguments =
        some ⟨.array ((first.arguments.toList.filter (· ≠ "")).map
          Value.ofLiteral), true⟩) := by
  refine ⟨?_, ?_, ?_, ?_⟩
  · intro budget statement machine outcome hrun
    have hresumes := (respected_resumes.holdsWithin budget).statement hrun
    exact hresumes.store.keepsConstants
  · intro statements machine outcome hruns
    obtain ⟨budget, hrun⟩ := hruns
    have hresumes := (respected_resumes.holdsWithin budget).statements hrun
    exact hresumes.store.keepsConstants
  · intro budget program machine outcome hrun
    exact (execute_resumes hrun).store.keepsConstants
  · intro log callLimit input output first later point hreaches
    exact hreaches.hasConstant_arguments

/-- A program that tries to empty the array of its arguments. -/
def emptiesArguments (arguments : List String) : Program where
  statements :=
    [{ kind := .arrayPop, line := ["$array_pop", "$ARGS"], lineNo := 1,
       expression := { left := "$ARGS" } }]
  arguments := Arguments.ofList arguments

/-- The machine after such a program. -/
def withArguments (values : List Value) : Machine where
  store := { innermost := [(Word.arguments, ⟨.array values, true⟩)] }

theorem emptiesArguments_keeps_arguments :
    ∃ outcome,
      execute 3 (emptiesArguments ["c"])
        (withArguments [.text "a", .text "b"]) = some outcome ∧
      (withArguments [.text "a", .text "b"]).store.KeepsConstants
        outcome.2.store ∧
      SessionReaches [emptiesArguments ["a", "", "b"], emptiesArguments ["c"]]
        (fresh #[] defaultCallLimit {} {}) outcome.2 ∧
      outcome.2.store.get? Word.arguments =
        some ⟨.array [.text "a", .text "b"], true⟩ := by
  let after := withArguments [.text "a", .text "b"]
  have hfirst : execute 3 (emptiesArguments ["a", "", "b"])
      (fresh #[] defaultCallLimit {} {}) = some (.ok .next, after) := rfl
  have hsecond : execute 3 (emptiesArguments ["c"]) after =
      some (.ok .next, after) := rfl
  have hreaches : SessionReaches
      [emptiesArguments ["a", "", "b"], emptiesArguments ["c"]]
      (fresh #[] defaultCallLimit {} {}) after := .later hfirst (.ended hsecond)
  obtain ⟨_, _, hprogram, hsession⟩ := constants_never_change
  exact ⟨(.ok .next, after), hsecond, hprogram _ _ _ _ hsecond, hreaches,
    hsession _ _ _ _ _ _ _ hreaches⟩

end Machine

end LineScript
