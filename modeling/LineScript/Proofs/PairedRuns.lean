/-
Two runs side by side.  A machine may differ from another in its limit on calls
and in how its input is held, as long as both inputs give the same words.  Then
both machines run alike: a run on one comes to the same result on the other, with
the same output and the same store, unless it ends because the lower limit was
hit.
-/
import LineScript.Proofs.InPlaceChange
import LineScript.Proofs.RunTrace
import LineScript.Proofs.ScopeBalance

namespace LineScript

/-- Inputs related in this way give the same word, and are related again behind
it. -/
structure InputStream.Interchangeable
    (Alike : InputStream → InputStream → Prop) : Prop where
  word : ∀ {left right}, Alike left right →
    right.nextWord.1 = left.nextWord.1
  rest : ∀ {left right}, Alike left right →
    Alike left.nextWord.2 right.nextWord.2

theorem InputStream.interchangeable_eq : Interchangeable Eq where
  word halike := halike ▸ rfl
  rest halike := halike ▸ rfl

namespace Machine

/-- The machine with another limit on calls and another input. -/
def beside (machine : Machine) (limit : Nat) (input : InputStream) : Machine :=
  { machine with callLimit := limit, input }

/-- The outcome of a handler beside a machine: the same result, and a machine
that differs from the first only in limit and input. -/
def SameBeside (Alike : InputStream → InputStream → Prop) (limit : Nat)
    (left right : Except Fault Unit × Machine) : Prop :=
  ∃ rest, Alike left.2.input rest ∧ right = (left.1, left.2.beside limit rest)

section Handlers

variable {Alike : InputStream → InputStream → Prop}

theorem readInto_beside (hwords : InputStream.Interchangeable Alike)
    {machine : Machine} (limit : Nat) {input : InputStream}
    (hinput : Alike machine.input input) (kind : StatementKind)
    (token : String) :
    SameBeside Alike limit (machine.readInto kind token)
      ((machine.beside limit input).readInto kind token) := by
  have hword := hwords.word hinput
  have hrest := hwords.rest hinput
  have hname : (machine.beside limit input).substitute token =
      machine.substitute token := rfl
  simp only [readInto, hname]
  simp only [beside, hword]
  by_cases hcontains : machine.store.contains (machine.substitute token) = true
  · simp only [hcontains, Bool.not_true, Bool.false_eq_true, if_false]
    cases machine.output.flush with
    | error fault => exact ⟨input, hinput, rfl⟩
    | ok _ =>
        rcases hnext : machine.input.nextWord with ⟨_ | (_ | word), behind⟩
        · rw [hnext] at hrest
          exact ⟨_, hrest, rfl⟩
        · rw [hnext] at hrest
          exact ⟨_, hrest, rfl⟩
        · rw [hnext] at hrest
          simp only
          cases readNumber kind word with
          | error reason => exact ⟨_, hrest, rfl⟩
          | ok value => exact ⟨_, hrest, rfl⟩
  · simp only [hcontains, Bool.not_false, if_true]
    exact ⟨input, hinput, rfl⟩

theorem readAll_beside (hwords : InputStream.Interchangeable Alike)
    {machine : Machine} (limit : Nat) {input : InputStream}
    (hinput : Alike machine.input input) (kind : StatementKind)
    (tokens : List String) :
    SameBeside Alike limit (machine.readAll kind tokens)
      ((machine.beside limit input).readAll kind tokens) := by
  induction tokens generalizing machine input with
  | nil => exact ⟨input, hinput, rfl⟩
  | cons token later ih =>
      obtain ⟨rest, hrest, hread⟩ :=
        readInto_beside hwords limit hinput kind token
      simp only [readAll, hread]
      rcases hfirst : machine.readInto kind token with ⟨_ | _, after⟩
      · rw [hfirst] at hrest
        exact ⟨rest, hrest, rfl⟩
      · rw [hfirst] at hrest
        exact ih hrest

/-- A handler does the same beside a machine. -/
theorem perform_beside (hwords : InputStream.Interchangeable Alike)
    {machine : Machine} (limit : Nat) {input : InputStream}
    (hinput : Alike machine.input input) (statement : Statement)
    (handler : Handler) :
    SameBeside Alike limit (machine.perform statement handler)
      ((machine.beside limit input).perform statement handler) := by
  by_cases honly : handler.onlyVariables = true
  · rw [perform_eq_inPlace machine statement honly,
      perform_eq_inPlace (machine.beside limit input) statement honly]
    exact ⟨input, hinput, rfl⟩
  · cases handler with
    | declare | arrayDeclare | arrayAppend | arraySet | arrayPop | assign =>
        contradiction
    | print => exact ⟨input, hinput, rfl⟩
    | read =>
        simp only [perform, read]
        split
        · exact readAll_beside hwords limit hinput _ _
        · exact ⟨input, hinput, rfl⟩
    | define =>
        simp only [perform, define]
        cases statement.target? with
        | none => exact ⟨input, hinput, rfl⟩
        | some name => exact ⟨input, hinput, rfl⟩
    | block | call | leave => exact ⟨input, hinput, rfl⟩

end Handlers

theorem performed_beside {Alike : InputStream → InputStream → Prop}
    (hwords : InputStream.Interchangeable Alike) {machine : Machine}
    (limit : Nat) {input : InputStream} (hinput : Alike machine.input input)
    (statement : Statement) (handler : Handler) :
    ∃ rest, Alike (machine.performed statement handler).2.input rest ∧
      (machine.beside limit input).performed statement handler =
        ((machine.performed statement handler).1,
          (machine.performed statement handler).2.beside limit rest) := by
  obtain ⟨rest, hrest, hperform⟩ :=
    perform_beside hwords limit hinput statement handler
  refine ⟨rest, by rwa [performed_snd], ?_⟩
  unfold performed
  rw [hperform]
  rcases machine.perform statement handler with ⟨_ | _, after⟩
  · rfl
  · rfl

/-- A result that only a machine with the lower of two limits has. -/
def HitsLimit (lower higher : Nat) (result : Except RunError Flow) : Prop :=
  lower < higher ∧ ∃ line, result = .error ⟨.recursionLimit lower, line⟩

namespace HitsLimit

variable {lower higher : Nat}

theorem atLine {outcome : Outcome} (hhits : HitsLimit lower higher outcome.1)
    (line : Nat) : HitsLimit lower higher (outcome.atLine line).1 := by
  obtain ⟨hlower, inner, hresult⟩ := hhits
  refine ⟨hlower, inner.or (some line), ?_⟩
  rw [Outcome.atLine, hresult]
  rfl

theorem map_afterCall {result : Except RunError Flow}
    (hhits : HitsLimit lower higher result) :
    HitsLimit lower higher (result.map Flow.afterCall) := by
  obtain ⟨hlower, line, rfl⟩ := hhits
  exact ⟨hlower, line, rfl⟩

theorem not_ok {flow : Flow} : ¬HitsLimit lower higher (.ok flow) := by
  rintro ⟨_, _, hresult⟩
  contradiction

end HitsLimit

/-- Beside a machine, a task comes to the same outcome. -/
def CompletesBeside (Alike : InputStream → InputStream → Prop) (limit : Nat)
    (task : Task) (machine : Machine) (input : InputStream)
    (outcome : Outcome) : Prop :=
  ∃ trace rest, Alike outcome.2.input rest ∧
    Completes task (machine.beside limit input) trace
      (outcome.1, outcome.2.beside limit rest)

theorem callee_beside (machine : Machine) (limit : Nat)
    (input : InputStream) (statement : Statement) :
    (machine.beside limit input).callee statement =
      match machine.procedures.lookup (machine.targetName statement) with
      | none => .error (.functionNotFound (machine.targetName statement))
      | some procedure =>
        if limit ≤ machine.calls then .error (.recursionLimit limit)
        else .ok procedure :=
  rfl

/-- A call is refused beside a machine as on it, except where only the lower
limit is hit. -/
theorem callee_beside_of_error {machine : Machine} {statement : Statement}
    {fault : Fault} {limit : Nat} (input : InputStream)
    (hlimit : machine.callLimit ≤ limit)
    (hcallee : machine.callee statement = .error fault) :
    HitsLimit machine.callLimit limit (.error ⟨fault, none⟩) ∨
      (machine.beside limit input).callee statement = .error fault := by
  rcases Nat.eq_or_lt_of_le hlimit with rfl | hlower
  · exact Or.inr hcallee
  · cases hfound :
        machine.procedures.lookup (machine.targetName statement) with
    | none =>
        simp only [callee, hfound] at hcallee
        rw [callee_beside, hfound]
        exact Or.inr hcallee
    | some procedure =>
        simp only [callee, hfound] at hcallee
        split at hcallee
        · obtain rfl := Except.error.inj hcallee
          exact Or.inl ⟨hlower, none, rfl⟩
        · contradiction

theorem callee_beside_of_ok {machine : Machine} {statement : Statement}
    {procedure : Procedure} {limit : Nat} (input : InputStream)
    (hlimit : machine.callLimit ≤ limit)
    (hcallee : machine.callee statement = .ok procedure) :
    (machine.beside limit input).callee statement = .ok procedure := by
  cases hfound :
      machine.procedures.lookup (machine.targetName statement) with
  | none =>
      simp only [callee, hfound] at hcallee
      contradiction
  | some found =>
      simp only [callee, hfound] at hcallee
      split at hcallee
      · contradiction
      · next hcalls =>
        have hbelow : ¬limit ≤ machine.calls := by omega
        rw [callee_beside, hfound]
        exact (if_neg hbelow).trans hcallee

/-- A run beside a machine comes to the outcome of a run on it, unless that ends
at the lower limit.  Each rule of the derivation is taken over; the limit stays
what it was along the run. -/
theorem Completes.beside {Alike : InputStream → InputStream → Prop}
    (hwords : InputStream.Interchangeable Alike) {task : Task}
    {machine : Machine} {trace : List Activation} {outcome : Outcome}
    (hcompletes : Completes task machine trace outcome) {limit : Nat}
    (hlimit : machine.callLimit ≤ limit) {input : InputStream}
    (hinput : Alike machine.input input) :
    HitsLimit machine.callLimit limit outcome.1 ∨
      CompletesBeside Alike limit task machine input outcome := by
  induction hcompletes generalizing input with
  | nil => exact Or.inr ⟨_, input, hinput, .nil⟩
  | next hfirst hlater ihFirst ihRest =>
      have hresumes := hfirst.related respected_resumes
      -- The first statement has handed on control, so it has hit no limit.
      rcases ihFirst hlimit hinput with hhits | ⟨_, rest, hrest, hstatement⟩
      · exact absurd hhits HitsLimit.not_ok
      · rw [← hresumes.callLimit] at hlimit ⊢
        refine (ihRest hlimit hrest).imp_right ?_
        rintro ⟨_, behind, hbehind, hstatements⟩
        exact ⟨_, behind, hbehind, .next hstatement hstatements⟩
  | stop _ hstops ih =>
      refine (ih hlimit hinput).imp_right ?_
      rintro ⟨_, rest, hrest, hstatement⟩
      exact ⟨_, rest, hrest, .stop hstatement hstops⟩
  | halt hhandler => exact Or.inr ⟨_, input, hinput, .halt hhandler⟩
  | leave hhandler => exact Or.inr ⟨_, input, hinput, .leave hhandler⟩
  | @simple statement handler machine hhandler hsimple =>
      obtain ⟨rest, hrest, hperformed⟩ :=
        performed_beside hwords limit hinput statement handler
      have hbeside : Completes (.statement statement)
          (machine.beside limit input) _ _ := .simple hhandler hsimple
      rw [hperformed] at hbeside
      exact Or.inr ⟨_, rest, hrest, hbeside⟩
  | block hhandler _ ih =>
      refine (ih hlimit hinput).imp (·.atLine _) ?_
      rintro ⟨_, rest, hrest, hblock⟩
      exact ⟨_, rest, hrest, .block hhandler hblock⟩
  | call hhandler _ ih =>
      refine (ih hlimit hinput).imp (·.atLine _) ?_
      rintro ⟨_, rest, hrest, hcall⟩
      exact ⟨_, rest, hrest, .call hhandler hcall⟩
  | undecided hcondition =>
      exact Or.inr ⟨_, input, hinput, .undecided hcondition⟩
  | skipped hcondition =>
      exact Or.inr ⟨_, input, hinput, .skipped hcondition⟩
  | again hcondition hloop hbody _ ihBody ihRest =>
      have hresumes := hbody.related respected_resumes
      rcases ihBody hlimit hinput with hhits | ⟨_, rest, hrest, hscope⟩
      · exact absurd hhits HitsLimit.not_ok
      · rw [← hresumes.callLimit] at hlimit ⊢
        refine (ihRest hlimit hrest).imp_right ?_
        rintro ⟨_, behind, hbehind, hblock⟩
        exact ⟨_, behind, hbehind, .again hcondition hloop hscope hblock⟩
  | once hcondition hends _ ih =>
      refine (ih hlimit hinput).imp_right ?_
      rintro ⟨_, rest, hrest, hscope⟩
      exact ⟨_, rest, hrest, .once hcondition hends hscope⟩
  | @scope body machine _ _ _ ih =>
      refine (ih hlimit hinput).imp_right ?_
      rintro ⟨_, rest, hrest, hbody⟩
      have hscope : Completes (.scope body) (machine.beside limit input) _ _ :=
        .scope hbody
      exact ⟨_, rest, hrest, hscope⟩
  | refused hcallee =>
      refine (callee_beside_of_error input hlimit hcallee).imp_right ?_
      intro hbeside
      exact ⟨_, input, hinput, .refused hbeside⟩
  | called hcallee _ ih =>
      have hbeside := callee_beside_of_ok input hlimit hcallee
      refine (ih hlimit hinput).imp (·.map_afterCall) ?_
      rintro ⟨_, rest, hrest, hscope⟩
      exact ⟨_, rest, hrest, .called hbeside hscope⟩

theorem flushed_beside (outcome : Outcome) (limit : Nat)
    (input : InputStream) :
    flushed (outcome.1, outcome.2.beside limit input) =
      ((flushed outcome).1, (flushed outcome).2.beside limit input) := by
  rcases outcome with ⟨result, machine⟩
  have hflush : (machine.beside limit input).output.flush =
      machine.output.flush := rfl
  simp only [flushed, hflush]
  cases machine.output.flush with
  | error fault => rfl
  | ok _ => rfl

/-- The same for whole programs: their statements end at the lower limit, or the
program comes to the same outcome. -/
theorem execute_beside {Alike : InputStream → InputStream → Prop}
    (hwords : InputStream.Interchangeable Alike) {budget : Nat}
    {program : Program} {machine : Machine} {outcome : Outcome}
    (hrun : execute budget program machine = some outcome) {limit : Nat}
    (hlimit : machine.callLimit ≤ limit) {input : InputStream}
    (hinput : Alike machine.input input) :
    (∃ ended, RunsTo program.statements
        (machine.declareArguments program.arguments) ended ∧
      flushed ended = outcome ∧
      HitsLimit machine.callLimit limit ended.1) ∨
    ∃ more rest, Alike outcome.2.input rest ∧
      execute more program (machine.beside limit input) =
        some (outcome.1, outcome.2.beside limit rest) := by
  obtain ⟨_, ended, hcompletes, rfl⟩ := exists_execute_iff.mp ⟨budget, hrun⟩
  rcases hcompletes.beside hwords hlimit hinput with hhits | hbeside
  · have hends := runsTo_iff_exists_completes.mpr ⟨_, hcompletes⟩
    exact Or.inl ⟨ended, hends, rfl, hhits⟩
  · obtain ⟨trace, rest, hrest, hstatements⟩ := hbeside
    obtain ⟨more, hmore⟩ : ∃ more,
        execute more program (machine.beside limit input) =
          some ((flushed ended).1, (flushed ended).2.beside limit rest) :=
      exists_execute_iff.mpr
        ⟨trace, _, hstatements, flushed_beside ended limit rest⟩
    rw [← flushed_snd] at hrest
    exact Or.inr ⟨more, rest, hrest, hmore⟩

end Machine

end LineScript
