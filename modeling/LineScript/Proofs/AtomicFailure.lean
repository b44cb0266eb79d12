/-
What a failed statement leaves behind.  A statement that changes variables or
prints leaves all variables as they were when it fails, also where its expression
takes an element out of an array.  A statement that reads numbers stops at the
first target that fails, with the variables as if it had named only the targets
before.
-/
import LineScript.Proofs.StatementFrame

namespace LineScript

namespace Statement

/-- The same statement with only its first operands. -/
def withOperands (statement : Statement) (count : Nat) : Statement :=
  { statement with expression := .ofTokens (statement.operands.take count) }

theorem operands_withOperands (statement : Statement) (count : Nat) :
    (statement.withOperands count).operands =
      statement.operands.take count := by
  apply Expression.operands_ofTokens
  · have hslots : statement.operands.length ≤ 3 := List.length_filter_le _ _
    rw [List.length_take]
    omega
  · intro hempty
    have hoperand := List.mem_of_mem_take hempty
    simp [operands, Expression.operands] at hoperand

end Statement

theorem Handler.isSimple_of_onlyVariables {handler : Handler}
    (honly : handler.onlyVariables = true) : handler.isSimple = true := by
  cases handler <;> first | rfl | contradiction

namespace Machine

theorem perform_of_performed {machine after : Machine} {statement : Statement}
    {handler : Handler} {error : RunError}
    (hperformed : machine.performed statement handler = (.error error, after)) :
    machine.perform statement handler = (.error error.fault, after) := by
  unfold performed at hperformed
  split at hperformed
  · simp at hperformed
  · next fault _ hperform =>
    obtain ⟨herror, rfl⟩ := Prod.mk.inj hperformed
    obtain rfl := Except.error.inj herror
    exact hperform

/-- An error of a statement with a handler of its own comes from that
handler. -/
theorem perform_of_runStatement {machine after : Machine}
    {statement : Statement} {handler : Handler} {budget : Nat}
    {error : RunError} (hhandler : statement.kind.handler? = some handler)
    (hsimple : handler.isSimple = true)
    (hrun : runStatement budget statement machine =
      some (.error error, after)) :
    machine.perform statement handler = (.error error.fault, after) := by
  cases budget with
  | zero => contradiction
  | succ budget =>
      rw [runStatement_of_isSimple hhandler hsimple] at hrun
      exact perform_of_performed (Option.some.inj hrun)

section Variables

variable {machine after : Machine} {statement : Statement} {fault : Fault}

/-- A failed change of variables is not taken over. -/
theorem eq_of_perform_error {handler : Handler}
    (hhandler : handler.onlyVariables = true)
    (hperform : machine.perform statement handler = (.error fault, after)) :
    after = machine := by
  have hcommit : ∀ {change : Except Fault Machine},
      machine.commit change = (.error fault, after) → after = machine := by
    intro change hchange
    cases change with
    | error _ => exact (Prod.mk.inj hchange).2.symm
    | ok _ => simp [commit] at hchange
  cases handler with
  | declare | arrayDeclare | arrayAppend | arraySet | arrayPop | assign =>
      exact hcommit hperform
  | _ => contradiction

/-- Where the change is made step by step and nothing is taken back, the failure
comes before the first write all the same. -/
theorem inPlace_of_perform_error {handler : Handler}
    (hhandler : handler.onlyVariables = true)
    (hperform : machine.perform statement handler = (.error fault, after)) :
    (InPlace.perform machine.bindings statement handler).on machine.store =
      (.error fault, machine.store) := by
  have hafter := eq_of_perform_error hhandler hperform
  rw [perform_eq_inPlace machine statement hhandler] at hperform
  obtain ⟨hresult, hchanged⟩ := Prod.mk.inj hperform
  have hstore := congrArg Machine.store (hchanged.trans hafter)
  exact Prod.ext hresult hstore

end Variables

section Reading

variable {kind : StatementKind}

theorem store_of_readInto_error {machine after : Machine} {token : String}
    {fault : Fault}
    (hread : machine.readInto kind token = (.error fault, after)) :
    after.store = machine.store := by
  simp only [readInto] at hread
  split at hread
  · exact congrArg (·.2.store) hread.symm
  · split at hread
    · exact congrArg (·.2.store) hread.symm
    · split at hread
      · exact congrArg (·.2.store) hread.symm
      · exact congrArg (·.2.store) hread.symm
      · split at hread
        · exact congrArg (·.2.store) hread.symm
        · simp at hread

/-- Reading stops at the first target that fails. -/
theorem exists_of_readAll_error {machine after : Machine}
    {tokens : List String} {fault : Fault}
    (hread : machine.readAll kind tokens = (.error fault, after)) :
    ∃ place token front, tokens[place]? = some token ∧
      machine.readAll kind (tokens.take place) = (.ok (), front) ∧
      front.readInto kind token = (.error fault, after) := by
  induction tokens generalizing machine with
  | nil => simp [readAll] at hread
  | cons token later ih =>
      rw [readAll] at hread
      split at hread
      · next middle hfirst =>
        obtain ⟨place, failing, front, hplace, hbefore, hfails⟩ := ih hread
        refine ⟨place + 1, failing, front, hplace, ?_, hfails⟩
        rw [List.take_succ_cons, readAll, hfirst]
        exact hbefore
      · exact ⟨0, token, machine, rfl, rfl, hread⟩

end Reading

/-- A statement that reads only the first targets. -/
theorem runStatement_withOperands {machine front : Machine}
    {statement : Statement} {place : Nat}
    (hkind : statement.kind = .readInt ∨ statement.kind = .readFloat)
    (hread : machine.readAll statement.kind (statement.operands.take place) =
      (.ok (), front)) (budget : Nat) :
    runStatement (budget + 1) (statement.withOperands place) machine =
      some (.ok .next, front) := by
  have hhandler : (statement.withOperands place).kind.handler? =
      some .read := by
    rcases hkind with hkind | hkind <;>
      simp [Statement.withOperands, hkind, StatementKind.handler?]
  have hperform : machine.perform (statement.withOperands place) .read =
      (.ok (), front) := by
    rw [perform, read, Statement.operands_withOperands]
    exact (if_pos hkind).trans hread
  rw [runStatement_of_isSimple hhandler rfl, performed_of_perform hperform]

/-- A statement without a body fails as a whole, up to the target where it
fails.  One that changes variables or prints leaves the store as it was, and a
change of variables would do so even if no failure took anything back.  One that
reads numbers leaves the store that reading only the targets before leaves. -/
theorem failed_statement_is_atomic {machine after : Machine}
    {statement : Statement} {budget : Nat} {error : RunError}
    (hrun : runStatement budget statement machine =
      some (.error error, after)) :
    (statement.kind ∈ [.declare, .constant, .assign, .arrayDeclare,
        .arrayAppend, .arraySet, .arrayPop, .print, .printLn] →
      after.store = machine.store) ∧
    (∀ handler, statement.kind.handler? = some handler →
      handler.onlyVariables = true →
      (InPlace.perform machine.bindings statement handler).on machine.store =
        (.error error.fault, machine.store)) ∧
    (statement.kind = .readInt ∨ statement.kind = .readFloat →
      ∃ place token front, statement.operands[place]? = some token ∧
        (statement.withOperands place).operands =
          statement.operands.take place ∧
        (∀ budget, runStatement (budget + 1) (statement.withOperands place)
          machine = some (.ok .next, front)) ∧
        (front.readInto statement.kind token).1 = .error error.fault ∧
        after.store = front.store ∧
        ∀ name, name ∉ (statement.operands.take place).map machine.substitute →
          after.store.get? name = machine.store.get? name) := by
  refine ⟨fun hkind => ?_, fun handler hhandler honly => ?_, fun hkind => ?_⟩
  · obtain ⟨handler, hhandler, hkeeps⟩ : ∃ handler,
        statement.kind.handler? = some handler ∧
          (handler.onlyVariables = true ∨ handler = .print) := by
      cases hkind' : statement.kind <;> simp [hkind'] at hkind <;>
        exact ⟨_, rfl, by decide⟩
    rcases hkeeps with honly | rfl
    · have hperform := perform_of_runStatement hhandler
        (Handler.isSimple_of_onlyVariables honly) hrun
      rw [eq_of_perform_error honly hperform]
    · have hperform := perform_of_runStatement hhandler rfl hrun
      exact congrArg (·.2.store) hperform.symm
  · exact inPlace_of_perform_error honly (perform_of_runStatement hhandler
      (Handler.isSimple_of_onlyVariables honly) hrun)
  · have hhandler : statement.kind.handler? = some .read := by
      rcases hkind with hkind | hkind <;> rw [hkind] <;> rfl
    have hperform := perform_of_runStatement hhandler rfl hrun
    rw [perform, read, if_pos hkind] at hperform
    obtain ⟨place, token, front, hplace, hbefore, hfails⟩ :=
      exists_of_readAll_error hperform
    have hstore := store_of_readInto_error hfails
    have hrewrites := readAll_rewrites machine statement.kind
      (statement.operands.take place)
    rw [hbefore, ← hstore] at hrewrites
    exact ⟨place, token, front, hplace, statement.operands_withOperands place,
      runStatement_withOperands hkind hbefore, by rw [hfails], hstore,
      hrewrites.others⟩

/-- A declaration of an array that asks for an array at the end of another. -/
def popDeclaration : Statement where
  kind := .arrayDeclare
  line := ["array", "ys", "=", "[", Word.arrayPop, "p", "]"]
  lineNo := 3
  expression := { left := Word.arrayPop, middle := "p" }

/-- A read of three targets. -/
def threeReads : Statement where
  kind := .readInt
  line := ["readint", "a", "b", "c"]
  lineNo := 4
  expression := { left := "a", middle := "b", right := "c" }

/-- A machine whose array ends with a number, and whose input has one number in
front of another word. -/
def beforeFailures : Machine where
  store :=
    { innermost := [("a", ⟨.int 0, false⟩), ("b", ⟨.int 0, false⟩),
        ("c", ⟨.int 0, false⟩), ("xs", ⟨.array [.int 1, .int 2], false⟩)] }
  bindings := [[("p", "xs")]]
  calls := 1
  input := { lines := [some "7", some "seven 8"] }

/-- The same machine after the first number. -/
def afterFirstRead : Machine :=
  { beforeFailures with
    store :=
      { innermost := [("a", ⟨.int 7, false⟩), ("b", ⟨.int 0, false⟩),
          ("c", ⟨.int 0, false⟩), ("xs", ⟨.array [.int 1, .int 2], false⟩)] }
    input := { pending := ["8"] } }

theorem popDeclaration_and_threeReads_are_atomic :
    runStatement 1 popDeclaration beforeFailures =
        some (.error ⟨.notAnArray "tail of xs", some 3⟩, beforeFailures) ∧
      runStatement 1 threeReads beforeFailures =
        some (.error ⟨.invalidInput "b"
          "'seven': invalid digit found in string", some 4⟩,
          afterFirstRead) ∧
      (InPlace.perform beforeFailures.bindings popDeclaration
          .arrayDeclare).on beforeFailures.store =
        (.error (.notAnArray "tail of xs"), beforeFailures.store) ∧
      ∃ place front, runStatement 1 (threeReads.withOperands place)
          beforeFailures = some (.ok .next, front) ∧
        afterFirstRead.store = front.store := by
  have hpop : runStatement 1 popDeclaration beforeFailures =
      some (.error ⟨.notAnArray "tail of xs", some 3⟩, beforeFailures) := rfl
  have hread : runStatement 1 threeReads beforeFailures =
      some (.error ⟨.invalidInput "b"
        "'seven': invalid digit found in string", some 4⟩,
        afterFirstRead) := rfl
  have hstays := (failed_statement_is_atomic hpop).2.1 .arrayDeclare rfl rfl
  obtain ⟨place, _, front, _, _, hfront, _, hstore, _⟩ :=
    (failed_statement_is_atomic hread).2.2 (Or.inl rfl)
  exact ⟨hpop, hread, hstays, place, front, hfront 0, hstore⟩

end Machine

end LineScript
