/-
The code that a run can come to.  It is made of the statements that are run, at
every depth of their bodies, and of the bodies of the registered procedures.
Running registers only what stands in the code already, so a property of all this
code is a property of everything that the run ever executes.
-/
import LineScript.Proofs.RunTrace
import LineScript.Proofs.ScopeBalance

namespace LineScript

/-- A statement that stands among some statements or anywhere in their
bodies. -/
inductive Within (statements : List Statement) : Statement → Prop
  | here {statement : Statement} :
    statement ∈ statements → Within statements statement
  | inside {outer statement : Statement} :
    Within statements outer → statement ∈ outer.body →
      Within statements statement

theorem sizeOf_body_lt (statement : Statement) :
    sizeOf statement.body < sizeOf statement := by
  cases statement
  simp only [Statement.mk.sizeOf_spec]
  omega

/-- A property of all statements at every depth. -/
def Everywhere (Holds : Statement → Prop) (statements : List Statement) :
    Prop :=
  ∀ statement, Within statements statement → Holds statement

theorem Within.mono {statements more : List Statement} {statement : Statement}
    (hsubset : ∀ other ∈ statements, Within more other)
    (hwithin : Within statements statement) : Within more statement := by
  induction hwithin with
  | here hmem => exact hsubset _ hmem
  | inside _ hbody ih => exact .inside ih hbody

theorem not_within_nil (statement : Statement) : ¬ Within [] statement := by
  intro hwithin
  induction hwithin with
  | here hmem => contradiction
  | inside _ _ ih => exact ih

theorem Within.of_cons {first statement : Statement} {later : List Statement}
    (hwithin : Within (first :: later) statement) :
    statement = first ∨ Within first.body statement ∨
      Within later statement := by
  induction hwithin with
  | here hmem =>
      rcases List.mem_cons.mp hmem with hfirst | hlater
      · exact Or.inl hfirst
      · exact Or.inr (Or.inr (.here hlater))
  | inside _ hbody ih =>
      rcases ih with rfl | hinside | hlater
      · exact Or.inr (Or.inl (.here hbody))
      · exact Or.inr (Or.inl (.inside hinside hbody))
      · exact Or.inr (Or.inr (.inside hlater hbody))

namespace Everywhere

variable {Holds : Statement → Prop} {statement : Statement}
  {later : List Statement}

theorem nil : Everywhere Holds [] := by
  intro other hother
  exact absurd hother (not_within_nil other)

theorem cons (hholds : Holds statement)
    (hbody : Everywhere Holds statement.body)
    (hlater : Everywhere Holds later) :
    Everywhere Holds (statement :: later) := by
  intro other hother
  rcases hother.of_cons with rfl | hinside | hbehind
  · exact hholds
  · exact hbody other hinside
  · exact hlater other hbehind

theorem head (hcode : Everywhere Holds (statement :: later)) :
    Everywhere Holds [statement] := by
  intro other hother
  refine hcode other (hother.mono ?_)
  intro first hfirst
  obtain rfl := List.mem_singleton.mp hfirst
  exact .here List.mem_cons_self

theorem tail (hcode : Everywhere Holds (statement :: later)) :
    Everywhere Holds later := by
  intro other hother
  refine hcode other (hother.mono ?_)
  intro first hfirst
  exact .here (List.mem_cons_of_mem statement hfirst)

theorem holds (hcode : Everywhere Holds (statement :: later)) :
    Holds statement :=
  hcode statement (.here List.mem_cons_self)

theorem body (hcode : Everywhere Holds [statement]) :
    Everywhere Holds statement.body := by
  intro other hother
  refine hcode other (hother.mono ?_)
  intro first hfirst
  exact .inside (.here List.mem_cons_self) hfirst

end Everywhere

namespace Machine

/-- A property of all statements in the bodies of the procedures. -/
def Registers (Holds : Statement → Prop) (machine : Machine) : Prop :=
  ∀ entry ∈ machine.procedures, Everywhere Holds entry.2.body

/-- A call finds a registered procedure, and only below the limit. -/
theorem mem_procedures_of_callee {machine : Machine} {statement : Statement}
    {procedure : Procedure}
    (hcallee : machine.callee statement = .ok procedure) :
    (machine.targetName statement, procedure) ∈ machine.procedures ∧
      machine.calls < machine.callLimit := by
  simp only [callee] at hcallee
  split at hcallee
  · contradiction
  · next found hfound =>
    split at hcallee
    · contradiction
    · next hlimit =>
      obtain rfl := Except.ok.inj hcallee
      exact ⟨mem_of_lookup_eq_some hfound, Nat.lt_of_not_le hlimit⟩

theorem Registers.define {Holds : Statement → Prop} {machine : Machine}
    {statement : Statement} (hregisters : machine.Registers Holds)
    (hcode : Everywhere Holds [statement]) :
    (machine.define statement).Registers Holds := by
  unfold Machine.define
  split
  · exact hregisters
  · intro entry hentry
    rcases List.mem_cons.mp hentry with rfl | hold
    · exact hcode.body
    · exact hregisters entry (List.mem_filter.mp hold).1

/-- A definition registers a part of its own code. -/
theorem Registers.perform {Holds : Statement → Prop} {machine : Machine}
    {statement : Statement} (hregisters : machine.Registers Holds)
    (hcode : Everywhere Holds [statement]) (handler : Handler) :
    (machine.perform statement handler).2.Registers Holds := by
  by_cases hdefine : handler = .define
  · subst hdefine
    exact hregisters.define hcode
  · unfold Registers
    rw [procedures_perform machine statement hdefine]
    exact hregisters

/-- The statements that a task starts from. -/
def Task.code : Task → List Statement
  | .statements all | .scope all => all
  | .statement one | .block one | .call one => [one]

/-- A property of the code that a task starts from and of the registered code
holds for every statement that goes to work, and for the code that is registered
then and at the end. -/
theorem Completes.keeps_code {Holds : Statement → Prop} {task : Task}
    {machine : Machine} {trace : List Activation} {outcome : Outcome}
    (hcompletes : Completes task machine trace outcome)
    (hcode : Everywhere Holds task.code)
    (hregisters : machine.Registers Holds) :
    outcome.2.Registers Holds ∧
      ∀ activation ∈ trace, Holds activation.statement := by
  induction hcompletes with
  | nil => exact ⟨hregisters, by simp⟩
  | next _ _ ihFirst ihRest =>
      obtain ⟨hafter, hfirst⟩ := ihFirst hcode.head hregisters
      obtain ⟨hend, hrest⟩ := ihRest hcode.tail hafter
      exact ⟨hend, List.forall_mem_append.mpr ⟨hfirst, hrest⟩⟩
  | stop _ _ ih => exact ih hcode.head hregisters
  | halt _ | leave _ | undecided _ | skipped _ | refused _ =>
      exact ⟨hregisters, List.forall_mem_singleton.mpr hcode.holds⟩
  | simple _ _ =>
      refine ⟨?_, List.forall_mem_singleton.mpr hcode.holds⟩
      rw [performed_snd]
      exact hregisters.perform hcode _
  | block _ _ ih | call _ _ ih => exact ih hcode hregisters
  | again _ _ _ _ ihBody ihRest =>
      obtain ⟨hafter, hinside⟩ := ihBody hcode.body hregisters
      obtain ⟨hend, hrest⟩ := ihRest hcode hafter
      have hlater := List.forall_mem_append.mpr ⟨hinside, hrest⟩
      exact ⟨hend, List.forall_mem_cons.mpr ⟨hcode.holds, hlater⟩⟩
  | once _ _ _ ih =>
      obtain ⟨hend, hinside⟩ := ih hcode.body hregisters
      exact ⟨hend, List.forall_mem_cons.mpr ⟨hcode.holds, hinside⟩⟩
  | scope _ ih => exact ih hcode hregisters
  | called hcallee _ ih =>
      obtain ⟨hentry, _⟩ := mem_procedures_of_callee hcallee
      obtain ⟨hend, hinside⟩ := ih (hregisters _ hentry) hregisters
      exact ⟨hend, List.forall_mem_cons.mpr ⟨hcode.holds, hinside⟩⟩

/-- A statement that stands in the given code or in a registered procedure. -/
def Knows (machine : Machine) (statements : List Statement)
    (statement : Statement) : Prop :=
  Within statements statement ∨
    ∃ entry ∈ machine.procedures, Within entry.2.body statement

/-- Only known code goes to work, whatever is defined on the way. -/
theorem Completes.knows {statements : List Statement} {machine : Machine}
    {trace : List Activation} {outcome : Outcome}
    (hcompletes : Completes (.statements statements) machine trace outcome) :
    ∀ activation ∈ trace, machine.Knows statements activation.statement := by
  have hcode : Everywhere (machine.Knows statements) statements :=
    fun _ hwithin => Or.inl hwithin
  have hregisters : machine.Registers (machine.Knows statements) :=
    fun entry hentry _ hwithin => Or.inr ⟨entry, hentry, hwithin⟩
  exact (hcompletes.keeps_code hcode hregisters).2

end Machine

end LineScript
