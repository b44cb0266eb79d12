/-
Invariants that depend on the code.  A property of machines may be kept only by
statements of a certain kind.  If all the code of a run is of that kind, at every
depth of the bodies, and all the registered code too, then the property holds on
every machine of the run, and of every session of such runs.
-/
import LineScript.Proofs.ConstantVariables
import LineScript.Proofs.ReachableCode

namespace LineScript

namespace Machine

/-- A property of machines that every construct keeps whose statement has another
property. -/
structure Invariant (Holds : Statement → Prop) (Keeps : Machine → Prop) :
    Prop where
  perform : ∀ {machine statement} handler, Holds statement → Keeps machine →
    Keeps (machine.perform statement handler).2
  enterBlock : ∀ {machine}, Keeps machine → Keeps machine.enterBlock
  exitBlock : ∀ {machine}, Keeps machine → Keeps machine.exitBlock
  enterCall : ∀ {machine statement} parameters, Holds statement →
    Keeps machine → Keeps (machine.enterCall
      (machine.bindArguments parameters statement.expression))
  exitCall : ∀ {machine}, Keeps machine → Keeps machine.exitCall

/-- The registered code is as an invariant asks, and the invariant holds. -/
structure Ready (Holds : Statement → Prop) (Keeps : Machine → Prop)
    (machine : Machine) : Prop where
  registers : machine.Registers Holds
  keeps : Keeps machine

variable {Holds : Statement → Prop} {Keeps : Machine → Prop}

theorem Completes.ready (hinvariant : Invariant Holds Keeps) {task : Task}
    {machine : Machine} {trace : List Activation} {outcome : Outcome}
    (hcompletes : Completes task machine trace outcome)
    (hcode : Everywhere Holds task.code) (hready : machine.Ready Holds Keeps) :
    outcome.2.Ready Holds Keeps := by
  induction hcompletes with
  | nil | halt _ | leave _ | undecided _ | skipped _ | refused _ =>
      exact hready
  | next _ _ ihFirst ihRest => exact ihRest hcode.tail (ihFirst hcode.head hready)
  | stop _ _ ih => exact ih hcode.head hready
  | simple _ _ =>
      rw [performed_snd]
      exact ⟨hready.registers.perform hcode _,
        hinvariant.perform _ hcode.holds hready.keeps⟩
  | block _ _ ih | call _ _ ih => exact ih hcode hready
  | again _ _ _ _ ihBody ihRest => exact ihRest hcode (ihBody hcode.body hready)
  | once _ _ _ ih => exact ih hcode.body hready
  | scope _ ih =>
      have hended := ih hcode
        ⟨hready.registers, hinvariant.enterBlock hready.keeps⟩
      exact ⟨hended.registers, hinvariant.exitBlock hended.keeps⟩
  | called hcallee _ ih =>
      obtain ⟨hentry, _⟩ := mem_procedures_of_callee hcallee
      have hended := ih (hready.registers _ hentry) ⟨hready.registers,
        hinvariant.enterCall _ hcode.holds hready.keeps⟩
      exact ⟨hended.registers, hinvariant.exitCall hended.keeps⟩

theorem Rounds.ready (hinvariant : Invariant Holds Keeps)
    {statement : Statement} {start point : Machine}
    (hround : Rounds statement start point)
    (hcode : Everywhere Holds [statement])
    (hready : start.Ready Holds Keeps) : point.Ready Holds Keeps := by
  induction hround with
  | first => exact hready
  | again _ _ _ hbody ih =>
      obtain ⟨_, hcompletes⟩ := derived _ (.scope statement.body) hbody
      exact hcompletes.ready hinvariant hcode.body ih

theorem Passes.ready (hinvariant : Invariant Holds Keeps)
    {statements rest : List Statement} {machine point : Machine}
    (hpasses : Passes statements machine rest point)
    (hcode : Everywhere Holds statements)
    (hready : machine.Ready Holds Keeps) :
    Everywhere Holds rest ∧ point.Ready Holds Keeps := by
  induction hpasses with
  | start => exact ⟨hcode, hready⟩
  | @next statement _ _ _ _ _ hrun ih =>
      obtain ⟨hrest, hpoint⟩ := ih
      obtain ⟨_, hcompletes⟩ := derived _ (.statement statement) hrun
      exact ⟨hrest.tail, hcompletes.ready hinvariant hrest.head hpoint⟩
  | block _ _ hround _ ih =>
      obtain ⟨hrest, hpoint⟩ := ih
      have hinside := hround.ready hinvariant hrest.head hpoint
      exact ⟨hrest.head.body, hinside.registers,
        hinvariant.enterBlock hinside.keeps⟩
  | call _ _ hcallee ih =>
      obtain ⟨hrest, hpoint⟩ := ih
      obtain ⟨hentry, _⟩ := mem_procedures_of_callee hcallee
      exact ⟨hpoint.registers _ hentry, hpoint.registers,
        hinvariant.enterBlock
          (hinvariant.enterCall _ hrest.holds hpoint.keeps)⟩

/-- The code that is left at a point of a run, and the code that is registered
there, have the properties that all code had at the start. -/
theorem Passes.keeps_code {statements rest : List Statement}
    {machine point : Machine} (hpasses : Passes statements machine rest point)
    (hcode : Everywhere Holds statements)
    (hregisters : machine.Registers Holds) :
    Everywhere Holds rest ∧ point.Registers Holds := by
  have htrivial : Invariant Holds fun _ => True :=
    ⟨fun _ _ _ => ⟨⟩, fun _ => ⟨⟩, fun _ => ⟨⟩, fun _ _ _ => ⟨⟩, fun _ => ⟨⟩⟩
  obtain ⟨hrest, hpoint⟩ := hpasses.ready htrivial hcode ⟨hregisters, ⟨⟩⟩
  exact ⟨hrest, hpoint.registers⟩

theorem Reaches.ready (hinvariant : Invariant Holds Keeps)
    {statements : List Statement} {machine point : Machine}
    (hreaches : Reaches statements machine point)
    (hcode : Everywhere Holds statements)
    (hready : machine.Ready Holds Keeps) : point.Ready Holds Keeps := by
  cases hreaches with
  | before hpasses => exact (hpasses.ready hinvariant hcode hready).2
  | round hpasses _ hround =>
      obtain ⟨hrest, hpoint⟩ := hpasses.ready hinvariant hcode hready
      exact hround.ready hinvariant hrest.head hpoint
  | @after statement _ _ _ _ hpasses hrun =>
      obtain ⟨hrest, hpoint⟩ := hpasses.ready hinvariant hcode hready
      obtain ⟨_, hcompletes⟩ := derived _ (.statement statement) hrun
      exact hcompletes.ready hinvariant hrest.head hpoint

/-- A program as an invariant asks: the declaration of its arguments keeps the
property, and its code keeps it. -/
structure Fits (Holds : Statement → Prop) (Keeps : Machine → Prop)
    (program : Program) : Prop where
  code : Everywhere Holds program.statements
  arguments : ∀ {machine}, Keeps machine →
    Keeps (machine.declareArguments program.arguments)

theorem ready_of_execute (hinvariant : Invariant Holds Keeps) {budget : Nat}
    {program : Program} {machine : Machine} {outcome : Outcome}
    (hrun : execute budget program machine = some outcome)
    (hfits : Fits Holds Keeps program) (hready : machine.Ready Holds Keeps) :
    outcome.2.Ready Holds Keeps := by
  obtain ⟨_, hstatements⟩ := exists_run_of_execute hrun
  obtain ⟨_, hcompletes⟩ :=
    derived budget (.statements program.statements) hstatements
  exact hcompletes.ready hinvariant hfits.code
    ⟨hready.registers, hfits.arguments hready.keeps⟩

/-- An invariant of the code of some programs holds on all machines of the session
that runs them. -/
theorem SessionReaches.ready (hinvariant : Invariant Holds Keeps)
    {programs : List Program} {machine point : Machine}
    (hreaches : SessionReaches programs machine point)
    (hfits : ∀ program ∈ programs, Fits Holds Keeps program)
    (hready : machine.Ready Holds Keeps) : point.Ready Holds Keeps := by
  induction hreaches with
  | inside hinside =>
      have hprogram := hfits _ List.mem_cons_self
      exact hinside.ready hinvariant hprogram.code
        ⟨hready.registers, hprogram.arguments hready.keeps⟩
  | ended hrun =>
      exact ready_of_execute hinvariant hrun (hfits _ List.mem_cons_self) hready
  | later hrun _ ih =>
      exact ih (List.forall_mem_cons.mp hfits).2
        (ready_of_execute hinvariant hrun (hfits _ List.mem_cons_self) hready)

end Machine

end LineScript
