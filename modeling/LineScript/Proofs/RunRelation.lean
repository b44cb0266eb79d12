/-
What holds along every run.  A relation between machines that every construct of
a program respects holds between the start and the end of every run, and between
the start of a block and every later evaluation of its condition.  The points of
a run are the machines on which its statements start, also those of the blocks
and calls inside, whether or not the run comes to an end.
-/
import LineScript.Proofs.RunOutcome

namespace LineScript

namespace Machine

/-- A relation between the machines before and after, which holds for each
construct if it holds for its parts. -/
structure Respected (Related : Machine → Machine → Prop) : Prop where
  refl : ∀ machine, Related machine machine
  trans : ∀ {first second third},
    Related first second → Related second third → Related first third
  perform : ∀ machine statement handler,
    Related machine (machine.perform statement handler).2
  scope : ∀ {machine after},
    Related machine.enterBlock after → Related machine after.exitBlock
  call : ∀ {machine after bound},
    Related (machine.enterCall bound) after → Related machine after.exitCall

/-- A relation holds for everything that runs within a budget. -/
structure HoldsWithin (Related : Machine → Machine → Prop)
    (budget : Nat) : Prop where
  statements : ∀ {statements machine outcome},
    runStatements budget statements machine = some outcome →
      Related machine outcome.2
  statement : ∀ {statement machine outcome},
    runStatement budget statement machine = some outcome →
      Related machine outcome.2
  block : ∀ {statement machine outcome},
    runBlock budget statement machine = some outcome →
      Related machine outcome.2
  scope : ∀ {body machine outcome},
    runScoped budget body machine = some outcome → Related machine outcome.2
  call : ∀ {statement machine outcome},
    runCall budget statement machine = some outcome →
      Related machine outcome.2

theorem performed_snd (machine : Machine) (statement : Statement)
    (handler : Handler) :
    (machine.performed statement handler).2 =
      (machine.perform statement handler).2 := by
  unfold performed
  split <;> simp_all [Outcome.fault, Outcome.atLine]

namespace HoldsWithin

variable {Related : Machine → Machine → Prop} {budget : Nat}

theorem statements_succ (hrespected : Respected Related)
    (hwithin : HoldsWithin Related budget) {statements : List Statement}
    {machine : Machine} {outcome : Outcome}
    (hrun : runStatements (budget + 1) statements machine = some outcome) :
    Related machine outcome.2 := by
  cases statements with
  | nil =>
      rw [runStatements_nil, Option.some.injEq] at hrun
      subst outcome
      exact hrespected.refl machine
  | cons statement later =>
      rw [runStatements_cons] at hrun
      cases hfirst : runStatement budget statement machine with
      | none => simp [hfirst] at hrun
      | some first =>
          have hrelated := hwithin.statement hfirst
          rw [hfirst] at hrun
          split at hrun
          · next after hnext =>
            obtain rfl := Option.some.inj hnext
            exact hrespected.trans hrelated (hwithin.statements hrun)
          · exact Option.some.inj hrun ▸ hrelated

theorem statement_succ (hrespected : Respected Related)
    (hwithin : HoldsWithin Related budget) {statement : Statement}
    {machine : Machine} {outcome : Outcome}
    (hrun : runStatement (budget + 1) statement machine = some outcome) :
    Related machine outcome.2 := by
  rw [runStatement_succ] at hrun
  split at hrun
  · obtain rfl := Option.some.inj hrun
    exact hrespected.refl machine
  · obtain rfl := Option.some.inj hrun
    exact hrespected.refl machine
  · obtain ⟨inner, hinner, rfl⟩ := Option.map_eq_some_iff.mp hrun
    have hrelated := hwithin.block hinner
    exact hrelated
  · obtain ⟨inner, hinner, rfl⟩ := Option.map_eq_some_iff.mp hrun
    have hrelated := hwithin.call hinner
    exact hrelated
  · obtain rfl := Option.some.inj hrun
    rw [performed_snd]
    exact hrespected.perform machine statement _

theorem block_succ (hrespected : Respected Related)
    (hwithin : HoldsWithin Related budget) {statement : Statement}
    {machine : Machine} {outcome : Outcome}
    (hrun : runBlock (budget + 1) statement machine = some outcome) :
    Related machine outcome.2 := by
  rw [runBlock_succ] at hrun
  split at hrun
  · obtain rfl := Option.some.inj hrun
    exact hrespected.refl machine
  · obtain rfl := Option.some.inj hrun
    exact hrespected.refl machine
  · cases hbody : runScoped budget statement.body machine with
    | none => simp [hbody] at hrun
    | some inner =>
        have hrelated := hwithin.scope hbody
        rw [hbody] at hrun
        split at hrun
        · next after hnext =>
          obtain rfl := Option.some.inj hnext
          split at hrun
          · exact hrespected.trans hrelated (hwithin.block hrun)
          · exact Option.some.inj hrun ▸ hrelated
        · exact Option.some.inj hrun ▸ hrelated

theorem scope_succ (hrespected : Respected Related)
    (hwithin : HoldsWithin Related budget) {body : List Statement}
    {machine : Machine} {outcome : Outcome}
    (hrun : runScoped (budget + 1) body machine = some outcome) :
    Related machine outcome.2 := by
  rw [runScoped_succ] at hrun
  obtain ⟨inner, hinner, rfl⟩ := Option.map_eq_some_iff.mp hrun
  exact hrespected.scope (hwithin.statements hinner)

theorem call_succ (hrespected : Respected Related)
    (hwithin : HoldsWithin Related budget) {statement : Statement}
    {machine : Machine} {outcome : Outcome}
    (hrun : runCall (budget + 1) statement machine = some outcome) :
    Related machine outcome.2 := by
  rw [runCall_succ] at hrun
  split at hrun
  · obtain rfl := Option.some.inj hrun
    exact hrespected.refl machine
  · obtain ⟨inner, hinner, rfl⟩ := Option.map_eq_some_iff.mp hrun
    exact hrespected.call (hwithin.scope hinner)

end HoldsWithin

/-- A respected relation holds between the start and the end of every run. -/
theorem Respected.holdsWithin {Related : Machine → Machine → Prop}
    (hrespected : Respected Related) (budget : Nat) :
    HoldsWithin Related budget := by
  induction budget with
  | zero => constructor <;> intro _ _ _ hrun <;> contradiction
  | succ budget ih =>
      exact ⟨ih.statements_succ hrespected, ih.statement_succ hrespected,
        ih.block_succ hrespected, ih.scope_succ hrespected,
        ih.call_succ hrespected⟩

/-- The machines on which a block that starts on `start` evaluates its
condition: the first one, and for a loop those after each of its rounds. -/
inductive Rounds (statement : Statement) (start : Machine) : Machine → Prop
  | first : Rounds statement start start
  | again {point after : Machine} {budget : Nat} :
    Rounds statement start point → statement.kind = .loop →
      point.blockCondition statement = .ok true →
      runScoped budget statement.body point = some (.ok .next, after) →
      Rounds statement start after

/-- A block ends on the machine of its last condition or with the last run of
its body. -/
theorem Rounds.exists_last {budget : Nat} {statement : Statement}
    {start point : Machine} {outcome : Outcome}
    (hround : Rounds statement start point)
    (hrun : runBlock budget statement point = some outcome) :
    ∃ last, Rounds statement start last ∧
      (outcome.2 = last ∨
        ∃ budget, runScoped budget statement.body last = some outcome) := by
  induction budget generalizing point with
  | zero => contradiction
  | succ budget ih =>
      rw [runBlock_succ] at hrun
      split at hrun
      · obtain rfl := Option.some.inj hrun
        exact ⟨point, hround, Or.inl rfl⟩
      · obtain rfl := Option.some.inj hrun
        exact ⟨point, hround, Or.inl rfl⟩
      · next hcondition =>
        split at hrun
        · next after hbody =>
          split at hrun
          · next hloop => exact ih (hround.again hloop hcondition hbody) hrun
          · exact ⟨point, hround, Or.inr ⟨budget, hrun ▸ hbody⟩⟩
        · exact ⟨point, hround, Or.inr ⟨budget, hrun⟩⟩

/-- The points that a run comes to, each with the statements that are left in
the body that it belongs to. -/
inductive Passes (statements : List Statement) (machine : Machine) :
    List Statement → Machine → Prop
  | start : Passes statements machine statements machine
  | next {statement : Statement} {later : List Statement}
      {point after : Machine} {budget : Nat} :
    Passes statements machine (statement :: later) point →
      runStatement budget statement point = some (.ok .next, after) →
      Passes statements machine later after
  | block {statement : Statement} {later : List Statement}
      {point round : Machine} :
    Passes statements machine (statement :: later) point →
      statement.kind.handler? = some .block →
      Rounds statement point round →
      round.blockCondition statement = .ok true →
      Passes statements machine statement.body round.enterBlock
  | call {statement : Statement} {later : List Statement} {point : Machine}
      {procedure : Procedure} :
    Passes statements machine (statement :: later) point →
      statement.kind.handler? = some .call →
      point.callee statement = .ok procedure →
      Passes statements machine procedure.body
        (point.enterCall (point.bindArguments procedure.parameters
          statement.expression)).enterBlock

theorem Rounds.related {Related : Machine → Machine → Prop}
    (hrespected : Respected Related) {statement : Statement}
    {start point : Machine} (hround : Rounds statement start point) :
    Related start point := by
  induction hround with
  | first => exact hrespected.refl start
  | again _ _ _ hbody ih =>
      have hrelated := (hrespected.holdsWithin _).scope hbody
      exact hrespected.trans ih hrelated

/-- What every construct keeps, and blocks and calls start with. -/
structure Persists (Related : Machine → Machine → Prop)
    (Holds : Machine → Prop) : Prop where
  kept : ∀ {before after}, Related before after → Holds before → Holds after
  block : ∀ {machine}, Holds machine → Holds machine.enterBlock
  call : ∀ {machine bound}, Holds machine → Holds (machine.enterCall bound)

theorem Passes.holds {Related : Machine → Machine → Prop}
    (hrespected : Respected Related) {Holds : Machine → Prop}
    (hpersists : Persists Related Holds)
    {statements rest : List Statement} {machine point : Machine}
    (hpasses : Passes statements machine rest point)
    (hstart : Holds machine) : Holds point := by
  induction hpasses with
  | start => exact hstart
  | next _ hrun ih =>
      have hrelated := (hrespected.holdsWithin _).statement hrun
      exact hpersists.kept hrelated ih
  | block _ _ hround _ ih =>
      have hrelated := hround.related hrespected
      exact hpersists.block (hpersists.kept hrelated ih)
  | call _ _ _ ih => exact hpersists.block (hpersists.call ih)

/-- The machines of a run: those on which a statement starts or a body ends,
those on which a block evaluates its condition, and those on which a statement
ends, however it does. -/
inductive Reaches (statements : List Statement) (machine : Machine) :
    Machine → Prop
  | before {rest : List Statement} {point : Machine} :
    Passes statements machine rest point → Reaches statements machine point
  | round {statement : Statement} {later : List Statement}
      {point round : Machine} :
    Passes statements machine (statement :: later) point →
      statement.kind.handler? = some .block → Rounds statement point round →
      Reaches statements machine round
  | after {statement : Statement} {later : List Statement}
      {point : Machine} {budget : Nat} {outcome : Outcome} :
    Passes statements machine (statement :: later) point →
      runStatement budget statement point = some outcome →
      Reaches statements machine outcome.2

/-- What persists holds on all machines of a run. -/
theorem Reaches.holds {Related : Machine → Machine → Prop}
    (hrespected : Respected Related) {Holds : Machine → Prop}
    (hpersists : Persists Related Holds)
    {statements : List Statement} {machine point : Machine}
    (hreaches : Reaches statements machine point)
    (hstart : Holds machine) : Holds point := by
  cases hreaches with
  | before hpasses => exact hpasses.holds hrespected hpersists hstart
  | round hpasses _ hround =>
      have hrelated := hround.related hrespected
      exact hpersists.kept hrelated
        (hpasses.holds hrespected hpersists hstart)
  | after hpasses hrun =>
      have hrelated := (hrespected.holdsWithin _).statement hrun
      exact hpersists.kept hrelated
        (hpasses.holds hrespected hpersists hstart)

end Machine

end LineScript
