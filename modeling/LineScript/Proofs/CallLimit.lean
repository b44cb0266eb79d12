/-
The limit on active calls matters only when it is hit.  A run that ends under a
limit, other than by hitting it, ends in the same way under every higher limit.
Of a whole program this can be seen unless its last flush fails, since that failure
takes the place of the error that names the limit.  In a run that starts outside of
all calls, every active call has its own frame of bindings, and there are never
more than the limit; a call is refused exactly when there are that many.
-/
import LineScript.Proofs.OutputGrowth
import LineScript.Proofs.PairedRuns
import LineScript.Proofs.ReachableCode

namespace LineScript

namespace Machine

section Counting

variable {limit : Nat}

/-- Every active call has a frame of bindings, and there are not more calls than
the limit. -/
structure CountsCalls (limit : Nat) (machine : Machine) : Prop where
  frames : machine.bindings.length = machine.calls
  calls : machine.calls ≤ limit
  callLimit : machine.callLimit = limit

theorem CountsCalls.of_resumes {before after : Machine}
    (hresumes : Resumes before after) (hcounts : before.CountsCalls limit) :
    after.CountsCalls limit where
  frames := by rw [hresumes.bindings, hresumes.calls, hcounts.frames]
  calls := hresumes.calls ▸ hcounts.calls
  callLimit := hresumes.callLimit.trans hcounts.callLimit

theorem Passes.countsCalls {statements rest : List Statement}
    {machine point : Machine} (hpasses : Passes statements machine rest point)
    (hstart : machine.CountsCalls limit) : point.CountsCalls limit := by
  induction hpasses with
  | start => exact hstart
  | next _ hrun ih =>
      exact ih.of_resumes ((respected_resumes.holdsWithin _).statement hrun)
  | block _ _ hround _ ih =>
      have hcounts := ih.of_resumes (hround.related respected_resumes)
      exact ⟨hcounts.frames, hcounts.calls, hcounts.callLimit⟩
  | call _ _ hcallee ih =>
      -- The call was not refused, so there is room for one more.
      have hroom := (mem_procedures_of_callee hcallee).2
      rw [ih.callLimit] at hroom
      exact ⟨congrArg (· + 1) ih.frames, hroom, ih.callLimit⟩

theorem Reaches.countsCalls {statements : List Statement}
    {machine point : Machine} (hreaches : Reaches statements machine point)
    (hstart : machine.CountsCalls limit) : point.CountsCalls limit := by
  cases hreaches with
  | before hpasses => exact hpasses.countsCalls hstart
  | round hpasses _ hround =>
      exact (hpasses.countsCalls hstart).of_resumes
        (hround.related respected_resumes)
  | after hpasses hrun =>
      exact (hpasses.countsCalls hstart).of_resumes
        ((respected_resumes.holdsWithin _).statement hrun)

end Counting

section Refusal

theorem callee_of_lookup {machine : Machine} {statement : Statement}
    {procedure : Procedure}
    (hfound : machine.procedures.lookup (machine.targetName statement) =
      some procedure) :
    machine.callee statement =
      if machine.callLimit ≤ machine.calls then
        .error (.recursionLimit machine.callLimit)
      else .ok procedure := by
  simp only [callee, hfound]

/-- Where nothing went to work, nothing has failed. -/
theorem Completes.eq_next_of_trace {task : Task} {machine : Machine}
    {trace : List Activation} {outcome : Outcome}
    (hcompletes : Completes task machine trace outcome)
    (htrace : trace = []) : outcome.1 = .ok .next := by
  induction hcompletes with
  | nil => rfl
  | next _ _ _ ihRest => exact ihRest (List.append_eq_nil_iff.mp htrace).2
  | stop _ hstops ih => exact absurd (ih htrace) hstops
  | block _ _ ih | call _ _ ih =>
      rw [Outcome.atLine, ih htrace]
      rfl
  | scope _ ih => exact ih htrace
  | _ => contradiction

/-- A call that is carried out goes to work on its body, or it fails at once. -/
theorem Completes.of_call {statement : Statement} {machine : Machine}
    {trace : List Activation} {outcome : Outcome}
    (hcompletes : Completes (.statement statement) machine trace outcome)
    (hhandler : statement.kind.handler? = some .call) :
    ∃ inner : Outcome, outcome = inner.atLine statement.lineNo ∧
      Completes (.call statement) machine trace inner := by
  cases hcompletes with
  | halt hother | leave hother | block hother _ => simp [hother] at hhandler
  | simple hother hsimple =>
      rw [hother, Option.some.injEq] at hhandler
      subst hhandler
      contradiction
  | call _ hcall => exact ⟨_, rfl, hcall⟩

/-- A call that finds its procedure is refused, without going to work on the
body, exactly when the limit is reached. -/
theorem refused_iff {statement : Statement} {machine : Machine}
    {procedure : Procedure}
    (hhandler : statement.kind.handler? = some .call)
    (hfound : machine.procedures.lookup (machine.targetName statement) =
      some procedure) :
    Completes (.statement statement) machine [⟨statement, machine⟩]
        (.error ⟨.recursionLimit machine.callLimit, some statement.lineNo⟩,
          machine) ↔
      machine.callLimit ≤ machine.calls := by
  have hcallee := callee_of_lookup hfound
  constructor
  · intro hcompletes
    apply Decidable.byContradiction
    intro hbelow
    rw [if_neg hbelow] at hcallee
    obtain ⟨inner, houtcome, hcall⟩ := hcompletes.of_call hhandler
    cases hcall with
    | refused hrefused => simp [hcallee] at hrefused
    | called _ hscope =>
        have hnext := hscope.eq_next_of_trace rfl
        rw [Outcome.atLine, hnext] at houtcome
        cases (Prod.mk.inj houtcome).1
  · intro hreached
    rw [if_pos hreached] at hcallee
    exact .call hhandler (.refused hcallee)

end Refusal

/-- Under a higher limit, statements come to the same outcome, unless the lower
limit is hit.  So do whole programs, but where the last flush fails, it hides that
the limit was hit.  From a machine without active calls, all machines of a run have
one frame of bindings for each active call and stay within the limit, and a call
that finds its procedure fails at once exactly when the number of active calls is
the limit; otherwise its body is entered. -/
theorem call_limit_matters_only_when_hit :
    (∀ statements machine limit outcome, machine.callLimit ≤ limit →
      RunsTo statements machine outcome →
      (∃ line, outcome.1 =
        .error ⟨.recursionLimit machine.callLimit, line⟩) ∨
      RunsTo statements { machine with callLimit := limit }
        (outcome.1, { outcome.2 with callLimit := limit })) ∧
    (∀ program machine limit budget outcome, machine.callLimit ≤ limit →
      execute budget program machine = some outcome →
      (∃ line, outcome.1 =
        .error ⟨.recursionLimit machine.callLimit, line⟩) ∨
      (∃ fault line, machine.output.flush = .error fault ∧
        outcome.1 = .error ⟨fault, none⟩ ∧
        RunsTo program.statements (machine.declareArguments program.arguments)
          (.error ⟨.recursionLimit machine.callLimit, line⟩, outcome.2)) ∨
      ∃ more, execute more program { machine with callLimit := limit } =
        some (outcome.1, { outcome.2 with callLimit := limit })) ∧
    (∀ statements machine, machine.calls = 0 → machine.bindings = [] →
      (∀ point, Reaches statements machine point →
        point.bindings.length = point.calls ∧
          point.calls ≤ machine.callLimit) ∧
      ∀ statement later point procedure,
        Passes statements machine (statement :: later) point →
        statement.kind = .call →
        point.procedures.lookup (point.targetName statement) =
          some procedure →
        (Completes (.statement statement) point [⟨statement, point⟩]
            (.error ⟨.recursionLimit machine.callLimit,
              some statement.lineNo⟩, point) ↔
          point.calls = machine.callLimit) ∧
        (point.calls ≠ machine.callLimit →
          Passes statements machine procedure.body
            (point.enterCall (point.bindArguments procedure.parameters
              statement.expression)).enterBlock)) := by
  refine ⟨?_, ?_, ?_⟩
  · intro statements machine limit outcome hlimit hruns
    obtain ⟨trace, hcompletes⟩ := runsTo_iff_exists_completes.mp hruns
    rcases hcompletes.beside InputStream.interchangeable_eq hlimit rfl with
      ⟨_, hhits⟩ | ⟨trace, _, rfl, hbeside⟩
    · exact Or.inl hhits
    · exact Or.inr (runsTo_iff_exists_completes.mpr ⟨trace, hbeside⟩)
  · intro program machine limit budget outcome hlimit hrun
    rcases execute_beside InputStream.interchangeable_eq hrun hlimit rfl with
      ⟨ended, hends, hflushed, _, line, hhits⟩ | ⟨more, _, rfl, hmore⟩
    · rcases flushed_cases hflushed with rfl | ⟨fault, hfails, hresult, hafter⟩
      · exact Or.inl ⟨line, hhits⟩
      · rw [flush_of_execute hrun] at hfails
        rw [show ended = (_, outcome.2) from Prod.ext hhits hafter] at hends
        exact Or.inr (Or.inl ⟨fault, line, hfails, hresult, hends⟩)
    · exact Or.inr (Or.inr ⟨more, hmore⟩)
  · intro statements machine hcalls hbindings
    have hstart : machine.CountsCalls machine.callLimit :=
      ⟨by rw [hbindings, hcalls]; rfl, by omega, rfl⟩
    refine ⟨fun point hreaches => ?_, ?_⟩
    · have hcounts := hreaches.countsCalls hstart
      exact ⟨hcounts.frames, hcounts.calls⟩
    · intro statement later point procedure hpasses hkind hfound
      have hcounts := hpasses.countsCalls hstart
      have hhandler : statement.kind.handler? = some .call := by
        rw [hkind]
        rfl
      refine ⟨?_, fun hbelow => ?_⟩
      · rw [← hcounts.callLimit, refused_iff hhandler hfound,
          hcounts.callLimit]
        exact ⟨Nat.le_antisymm hcounts.calls, Nat.le_of_eq ∘ Eq.symm⟩
      · have hcallee := callee_of_lookup hfound
        rw [hcounts.callLimit] at hcallee
        refine .call hpasses hhandler (hcallee.trans (if_neg ?_))
        exact fun hreached => hbelow (Nat.le_antisymm hcounts.calls hreached)

/-- A call of the procedure with a name. -/
def callOf (name : String) (lineNo : Nat) : Statement where
  kind := .call
  line := ["call", name]
  lineNo := lineNo

def outerProcedure : Procedure where
  parameters := { left := "p" }
  body := [callOf "inner" 2]

def innerProcedure : Procedure where
  parameters := {}
  body := [{ kind := .leave, line := ["return"], lineNo := 5 }]

/-- A machine with a procedure that calls another one, under a limit. -/
def nestedCalls (limit : Nat) : Machine where
  procedures := [("outer", outerProcedure), ("inner", innerProcedure)]
  callLimit := limit

/-- Inside the outer procedure, before the inner one is called. -/
def beforeInnerCall (limit : Nat) : Machine :=
  ((nestedCalls limit).enterCall []).enterBlock

theorem nestedCalls_need_two :
    (∃ after, RunsTo [callOf "outer" 7] (nestedCalls 2) (.ok .next, after) ∧
      RunsTo [callOf "outer" 7] (nestedCalls 9)
        (.ok .next, { after with callLimit := 9 })) ∧
    (∃ after, execute 15 ⟨[callOf "outer" 7], .ofList []⟩ (nestedCalls 2) =
        some (.ok .next, after) ∧
      ∃ more, execute more ⟨[callOf "outer" 7], .ofList []⟩ (nestedCalls 9) =
        some (.ok .next, { after with callLimit := 9 })) ∧
    Passes [callOf "outer" 7] (nestedCalls 1) [callOf "inner" 2]
        (beforeInnerCall 1) ∧
      Completes (.statement (callOf "inner" 2)) (beforeInnerCall 1)
        [⟨callOf "inner" 2, beforeInnerCall 1⟩]
        (.error ⟨.recursionLimit 1, some 2⟩, beforeInnerCall 1) := by
  obtain ⟨hstatements, hprograms, hcalls⟩ := call_limit_matters_only_when_hit
  refine ⟨?_, ?_, ?_⟩
  · have hruns : RunsTo [callOf "outer" 7] (nestedCalls 2)
        (.ok .next, { nestedCalls 2 with
          store := { log := #[.entering 1, .entering 2] } }) := ⟨15, rfl⟩
    rcases hstatements _ _ 9 _ (by decide) hruns with ⟨_, hhits⟩ | hhigher
    · contradiction
    · exact ⟨_, hruns, hhigher⟩
  · obtain ⟨after, hrun⟩ : ∃ after,
        execute 15 ⟨[callOf "outer" 7], .ofList []⟩ (nestedCalls 2) =
          some (.ok .next, after) := ⟨_, rfl⟩
    rcases hprograms _ _ 9 _ _ (by decide) hrun with
      ⟨_, hhits⟩ | ⟨_, _, hfails, _⟩ | hhigher
    · contradiction
    · contradiction
    · exact ⟨after, hrun, hhigher⟩
  · have hpasses : Passes [callOf "outer" 7] (nestedCalls 1)
        [callOf "inner" 2] (beforeInnerCall 1) :=
      @Passes.call _ _ _ _ _ outerProcedure .start rfl rfl
    have hrefused := (hcalls _ _ rfl rfl).2 _ _ _ _ hpasses rfl rfl
    exact ⟨hpasses, hrefused.1.mpr rfl⟩

/-- A program in which a call of a procedure calls another one, which prints. -/
def printsInside : Program where
  statements :=
    [{ kind := .define, line := ["function", "outer", ":", "\x7b"], lineNo := 1
       body := [callOf "inner" 2] },
     { kind := .define, line := ["function", "inner", ":", "\x7b"], lineNo := 4
       body := [{ kind := .printLn, line := ["println", "1"], lineNo := 5
                  expression := { left := "1" } }] },
     callOf "outer" 7]
  arguments := .ofList []

/-- A machine with a limit, whose output cannot be flushed. -/
def unflushable (limit : Nat) : Machine where
  callLimit := limit
  output := { flushFails := true }

/-- Where the last flush fails, runs under both limits end with that failure, and
none of them names the limit.  But the lower limit was hit, and so less was
printed. -/
theorem failing_flush_hides_limit :
    ∃ lower higher,
      execute 20 printsInside (unflushable 1) = some lower ∧
      execute 20 printsInside (unflushable 2) = some higher ∧
      lower.1 = .error ⟨.stream "flush failed", none⟩ ∧
      higher.1 = lower.1 ∧
      lower.2.output.written = "" ∧ higher.2.output.written = "1\n" ∧
      ¬ ((∃ line, lower.1 = .error ⟨.recursionLimit 1, line⟩) ∨
        ∃ more, execute more printsInside (unflushable 2) =
          some (lower.1, { lower.2 with callLimit := 2 })) := by
  obtain ⟨lower, hlower, hresult, hempty⟩ :
      ∃ lower, execute 20 printsInside (unflushable 1) = some lower ∧
        lower.1 = .error ⟨.stream "flush failed", none⟩ ∧
        lower.2.output.written = "" := ⟨_, rfl, rfl, rfl⟩
  obtain ⟨higher, hhigher, hfails, hprinted⟩ :
      ∃ higher, execute 20 printsInside (unflushable 2) = some higher ∧
        higher.1 = .error ⟨.stream "flush failed", none⟩ ∧
        higher.2.output.written = "1\n" := ⟨_, rfl, rfl, rfl⟩
  refine ⟨lower, higher, hlower, hhigher, hresult, hfails.trans hresult.symm,
    hempty, hprinted, ?_⟩
  rintro (⟨line, hhits⟩ | ⟨more, hmore⟩)
  · rw [hresult] at hhits
    cases hhits
  · obtain rfl := execute_unique hhigher hmore
    rw [hempty] at hprinted
    exact absurd hprinted (by decide)

end Machine

end LineScript
