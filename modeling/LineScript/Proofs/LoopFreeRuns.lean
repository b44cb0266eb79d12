/-
Without loops every run ends.  A body is smaller than the statement that it
belongs to, but the body of a procedure is not smaller than the call, and while
the program runs other procedures may take its place.  What gets smaller with a
call is the number of calls that are still allowed, and nothing that runs in
between gives it back.
-/
import LineScript.Proofs.ReachableCode

namespace LineScript

/-- A statement that does not repeat its body. -/
def Statement.LoopFree (statement : Statement) : Prop :=
  statement.kind ≠ .loop

namespace Machine

/-- A task comes to some outcome. -/
def Ends (task : Task) (machine : Machine) : Prop :=
  ∃ trace outcome, Completes task machine trace outcome

section Ends

variable {statement : Statement} {machine : Machine}

theorem ends_cons {later : List Statement}
    (hfirst : Ends (.statement statement) machine)
    (hlater : ∀ trace after,
      Completes (.statement statement) machine trace (.ok .next, after) →
        Ends (.statements later) after) :
    Ends (.statements (statement :: later)) machine := by
  obtain ⟨first, ⟨result, after⟩, hstatement⟩ := hfirst
  by_cases hnext : result = .ok .next
  · subst hnext
    obtain ⟨rest, outcome, hrest⟩ := hlater first after hstatement
    exact ⟨_, _, .next hstatement hrest⟩
  · exact ⟨_, _, .stop hstatement hnext⟩

theorem ends_scope {body : List Statement}
    (hbody : Ends (.statements body) machine.enterBlock) :
    Ends (.scope body) machine := by
  obtain ⟨trace, outcome, hcompletes⟩ := hbody
  exact ⟨_, _, .scope hcompletes⟩

theorem ends_block (hloop : statement.LoopFree)
    (hbody : Ends (.scope statement.body) machine) :
    Ends (.block statement) machine := by
  rcases hcondition : machine.blockCondition statement with fault | _ | _
  · exact ⟨_, _, .undecided hcondition⟩
  · exact ⟨_, _, .skipped hcondition⟩
  · obtain ⟨inside, outcome, hscope⟩ := hbody
    exact ⟨_, _, .once hcondition (fun _ => hloop) hscope⟩

theorem ends_call
    (hbody : ∀ procedure, machine.callee statement = .ok procedure →
      Ends (.scope procedure.body)
        (machine.enterCall (machine.bindArguments procedure.parameters
          statement.expression))) :
    Ends (.call statement) machine := by
  rcases hcallee : machine.callee statement with fault | procedure
  · exact ⟨_, _, .refused hcallee⟩
  · obtain ⟨inside, outcome, hscope⟩ := hbody procedure hcallee
    exact ⟨_, _, .called hcallee hscope⟩

theorem ends_statement (hblock : Ends (.block statement) machine)
    (hcall : Ends (.call statement) machine) :
    Ends (.statement statement) machine := by
  rcases hhandler : statement.kind.handler? with _ | handler
  · exact ⟨_, _, .halt hhandler⟩
  · by_cases hsimple : handler.isSimple = true
    · exact ⟨_, _, .simple hhandler hsimple⟩
    · cases handler with
      | leave => exact ⟨_, _, .leave hhandler⟩
      | block =>
          obtain ⟨trace, outcome, hcompletes⟩ := hblock
          exact ⟨_, _, .block hhandler hcompletes⟩
      | call =>
          obtain ⟨trace, outcome, hcompletes⟩ := hcall
          exact ⟨_, _, .call hhandler hcompletes⟩
      | _ => exact absurd rfl hsimple

end Ends

/-- The number of calls that may still be entered. -/
def callsLeft (machine : Machine) : Nat :=
  machine.callLimit - machine.calls

theorem Resumes.callsLeft_eq {before after : Machine}
    (hresumes : Resumes before after) : after.callsLeft = before.callsLeft := by
  rw [callsLeft, callsLeft, hresumes.calls, hresumes.callLimit]

theorem callsLeft_enterCall {machine : Machine} {statement : Statement}
    {procedure : Procedure}
    (hcallee : machine.callee statement = .ok procedure) (bound : Bindings) :
    (machine.enterCall bound).callsLeft < machine.callsLeft := by
  obtain ⟨_, hlimit⟩ := mem_procedures_of_callee hcallee
  simp only [callsLeft, enterCall]
  omega

/-- All code without loops ends where so many calls are left. -/
def EndsWithin (left : Nat) : Prop :=
  ∀ statements machine, machine.callsLeft = left →
    Everywhere Statement.LoopFree statements →
    machine.Registers Statement.LoopFree → Ends (.statements statements) machine

/-- The calls inside have fewer calls left, and everything else is smaller. -/
theorem endsWithin_of_lt {left : Nat}
    (hfewer : ∀ fewer < left, EndsWithin fewer) : EndsWithin left := by
  intro statements machine hleft hcode hregisters
  induction hsize : sizeOf statements using Nat.strongRecOn
    generalizing statements machine with
  | ind size ih =>
      subst hsize
      rcases statements with _ | ⟨statement, later⟩
      · exact ⟨_, _, .nil⟩
      · have hbody : Ends (.statements statement.body) machine.enterBlock := by
          have hsmaller := sizeOf_body_lt statement
          refine ih _ ?_ _ _ hleft hcode.head.body hregisters rfl
          simp only [List.cons.sizeOf_spec]
          omega
        have hcall : Ends (.call statement) machine := by
          apply ends_call
          intro procedure hcallee
          obtain ⟨hentry, _⟩ := mem_procedures_of_callee hcallee
          have hlower := callsLeft_enterCall hcallee
            (machine.bindArguments procedure.parameters statement.expression)
          rw [hleft] at hlower
          exact ends_scope
            (hfewer _ hlower _ _ rfl (hregisters _ hentry) hregisters)
        apply ends_cons
        · exact ends_statement (ends_block hcode.holds (ends_scope hbody)) hcall
        · intro trace after hstatement
          have hresumes := hstatement.related respected_resumes
          obtain ⟨hafter, _⟩ := hstatement.keeps_code hcode.head hregisters
          refine ih _ ?_ _ _ ?_ hcode.tail hafter rfl
          · simp only [List.cons.sizeOf_spec]
            omega
          · rw [hresumes.callsLeft_eq, hleft]

theorem endsWithin (left : Nat) : EndsWithin left := by
  induction left using Nat.strongRecOn with
  | ind left ih => exact endsWithin_of_lt ih

/-- A program without loops ends, on every machine whose procedures have none
either: there is a flow or an error that every large enough budget sees. -/
theorem loop_free_program_ends {program : Program} {machine : Machine}
    (hprogram : Everywhere Statement.LoopFree program.statements)
    (hregisters : machine.Registers Statement.LoopFree) :
    ∃ outcome budget, ∀ more, budget ≤ more →
      execute more program machine = some outcome := by
  obtain ⟨trace, ended, hcompletes⟩ := endsWithin _ program.statements
    (machine.declareArguments program.arguments) rfl hprogram hregisters
  obtain ⟨budget, hrun⟩ :=
    exists_execute_iff.mpr ⟨trace, ended, hcompletes, rfl⟩
  refine ⟨flushed ended, budget, ?_⟩
  intro more hmore
  exact execute_mono hmore hrun

/-- A procedure that calls its argument, and hands on its own name. -/
def callsBack : Procedure where
  parameters := { left := "p" }
  body := [{ kind := .call, line := ["call", "p", "g"], lineNo := 1
             expression := { left := "g" } }]

/-- A machine with that procedure and few calls. -/
def withCallsBack : Machine where
  procedures := [("g", callsBack)]
  callLimit := 3

/-- A program that defines such a procedure as well, so that both call each
other without end. -/
def callsEachOther : Program where
  statements :=
    [{ kind := .define, line := ["function", "f", ":", "x", "\x7b"], lineNo := 1
       expression := { left := "x" }
       body := [{ kind := .call, line := ["call", "x", "f"], lineNo := 2
                  expression := { left := "f" } }] },
      { kind := .call, line := ["call", "f", "g"], lineNo := 4
        expression := { left := "g" } }]
  arguments := .ofList []

theorem callsEachOther_ends :
    Everywhere Statement.LoopFree callsEachOther.statements ∧
      withCallsBack.Registers Statement.LoopFree ∧
      ∃ outcome budget, ∀ more, budget ≤ more →
        execute more callsEachOther withCallsBack = some outcome := by
  have hprogram : Everywhere Statement.LoopFree callsEachOther.statements :=
    .cons nofun (.cons nofun .nil .nil) (.cons nofun .nil .nil)
  have hregisters : withCallsBack.Registers Statement.LoopFree := by
    intro entry hentry
    obtain rfl := List.mem_singleton.mp hentry
    exact .cons nofun .nil .nil
  exact ⟨hprogram, hregisters, loop_free_program_ends hprogram hregisters⟩

end Machine

end LineScript
