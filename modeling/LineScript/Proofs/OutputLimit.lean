/-
A limit on the output only cuts it short.  A run under a limit goes along with the
run without one up to the first write that does not fit.  If there is none, both
come to the same.  Otherwise the print statement with that write fails, its error
goes out through all blocks and calls, and nothing is written any more, while the
run without a limit goes on and its output only grows.
-/
import LineScript.Proofs.OutputGrowth
import LineScript.Proofs.ReachableCode

namespace LineScript

namespace OutputStream

theorem ne_empty_of_not_fits {output : OutputStream} {text : String}
    (hfull : output.fits text = false) : text ≠ "" := by
  rintro rfl
  unfold fits at hfull
  split at hfull
  · contradiction
  · simp at hfull

theorem writeAll_of_unlimited {output : OutputStream}
    (hunlimited : output.limit = none) (texts : List String) :
    output.writeAll texts = (.ok (), output.appended (String.join texts)) := by
  rcases output.writeAll_cases texts with hall | ⟨done, text, _, _, hfull, _⟩
  · exact hall
  · simp [fits, appended, hunlimited] at hfull

/-- The output lacks some text at the end of another one. -/
def CutFrom (short whole : OutputStream) : Prop :=
  ∃ missing, missing ≠ "" ∧ whole.written = short.written ++ missing

theorem CutFrom.grows {short whole more : OutputStream}
    (hcut : short.CutFrom whole) (hgrows : whole.Grows more) :
    short.CutFrom more := by
  obtain ⟨missing, hmissing, hwhole⟩ := hcut
  obtain ⟨rest, rfl⟩ := hgrows
  refine ⟨missing ++ rest, ?_, ?_⟩
  · simp [hmissing]
  · rw [appended, hwhole, String.append_assoc]

end OutputStream

namespace Machine

/-- The machine with a limit on its output. -/
def limited (machine : Machine) (limit : Nat) : Machine :=
  { machine with output := { machine.output with limit := some limit } }

section Handlers

variable (machine : Machine) (limit : Nat)

theorem readInto_limited (kind : StatementKind) (token : String) :
    (machine.limited limit).readInto kind token =
      ((machine.readInto kind token).1,
        (machine.readInto kind token).2.limited limit) := by
  have hname : (machine.limited limit).substitute token =
      machine.substitute token := rfl
  have hflush : (machine.limited limit).output.flush =
      machine.output.flush := rfl
  simp only [readInto, hname, hflush]
  simp only [limited]
  by_cases hcontains : machine.store.contains (machine.substitute token) = true
  · simp only [hcontains, Bool.not_true, Bool.false_eq_true, if_false]
    cases machine.output.flush with
    | error fault => rfl
    | ok _ =>
        rcases machine.input.nextWord with ⟨_ | (_ | word), behind⟩
        · rfl
        · rfl
        · simp only
          cases readNumber kind word with
          | error reason => rfl
          | ok value => rfl
  · simp only [hcontains, Bool.not_false, if_true]

theorem readAll_limited (kind : StatementKind) (tokens : List String) :
    (machine.limited limit).readAll kind tokens =
      ((machine.readAll kind tokens).1,
        (machine.readAll kind tokens).2.limited limit) := by
  induction tokens generalizing machine with
  | nil => rfl
  | cons token later ih =>
      simp only [readAll, readInto_limited]
      rcases machine.readInto kind token with ⟨_ | _, after⟩
      · rfl
      · exact ih after

/-- A handler that does not print does the same under a limit. -/
theorem perform_limited (statement : Statement) {handler : Handler}
    (hprint : handler ≠ .print) :
    (machine.limited limit).perform statement handler =
      ((machine.perform statement handler).1,
        (machine.perform statement handler).2.limited limit) := by
  by_cases honly : handler.onlyVariables = true
  · rw [perform_eq_inPlace machine statement honly,
      perform_eq_inPlace (machine.limited limit) statement honly]
    rfl
  · cases handler with
    | declare | arrayDeclare | arrayAppend | arraySet | arrayPop | assign
    | print => contradiction
    | read =>
        simp only [perform, read]
        split
        · exact readAll_limited machine limit _ _
        · rfl
    | define =>
        simp only [perform, define]
        cases statement.target? with
        | none => rfl
        | some name => rfl
    | block | call | leave => rfl

theorem performed_limited (statement : Statement) {handler : Handler}
    (hprint : handler ≠ .print) :
    (machine.limited limit).performed statement handler =
      ((machine.performed statement handler).1,
        (machine.performed statement handler).2.limited limit) := by
  unfold performed
  rw [perform_limited machine limit statement hprint]
  rcases machine.perform statement handler with ⟨_ | _, after⟩
  · rfl
  · rfl

end Handlers

/-- One of the writes of a print statement does not fit, and the writes before it
are the last ones in the output. -/
structure FailedWrite (statement : Statement) (machine : Machine)
    (output : OutputStream) : Prop where
  kind : statement.kind = .print ∨ statement.kind = .printLn
  write : ∃ done text later,
    machine.statementWrites statement = done ++ text :: later ∧
      output = machine.output.appended (String.join done) ∧
      output.fits text = false

/-- A run has ended at a failed write: nothing went to work after the print
statement, and the error has its line. -/
def CutShort (trace : List Activation) (outcome : Outcome) : Prop :=
  ∃ front statement point, trace = front ++ [⟨statement, point⟩] ∧
    FailedWrite statement point outcome.2.output ∧
    outcome.1 = .error ⟨.stream "output limit", some statement.lineNo⟩

namespace CutShort

variable {trace : List Activation} {outcome : Outcome}

theorem append (hcut : CutShort trace outcome) (before : List Activation) :
    CutShort (before ++ trace) outcome := by
  obtain ⟨front, statement, point, rfl, hfailed, hresult⟩ := hcut
  exact ⟨before ++ front, statement, point, by simp, hfailed, hresult⟩

theorem ne_next (hcut : CutShort trace outcome) : outcome.1 ≠ .ok .next := by
  obtain ⟨_, _, _, _, _, hresult⟩ := hcut
  rw [hresult]
  nofun

theorem atLine (hcut : CutShort trace outcome) (line : Nat) :
    CutShort trace (outcome.atLine line) := by
  obtain ⟨front, statement, point, htrace, hfailed, hresult⟩ := hcut
  refine ⟨front, statement, point, htrace, hfailed, ?_⟩
  rw [Outcome.atLine, hresult]
  rfl

theorem exitBlock (hcut : CutShort trace outcome) :
    CutShort trace (outcome.1, outcome.2.exitBlock) :=
  hcut

theorem exitCall (hcut : CutShort trace outcome) :
    CutShort trace (outcome.1.map Flow.afterCall, outcome.2.exitCall) := by
  obtain ⟨front, statement, point, htrace, hfailed, hresult⟩ := hcut
  refine ⟨front, statement, point, htrace, hfailed, ?_⟩
  rw [hresult]
  rfl

end CutShort

/-- Under a limit, a task comes to the given outcome, or it is cut short, and then
its output lacks some of the output of that outcome. -/
inductive Truncates (limit : Nat) (task : Task) (machine : Machine)
    (outcome : Outcome) : Prop
  | same {trace : List Activation} :
    Completes task (machine.limited limit) trace
        (outcome.1, outcome.2.limited limit) →
      Truncates limit task machine outcome
  | cut {trace : List Activation} {ended : Outcome} :
    Completes task (machine.limited limit) trace ended →
      CutShort trace ended →
      ended.2.output.CutFrom outcome.2.output →
      Truncates limit task machine outcome

section Steps

variable {machine : Machine} {statement : Statement}

theorem kind_of_print (hhandler : statement.kind.handler? = some .print) :
    statement.kind = .print ∨ statement.kind = .printLn := by
  cases hkind : statement.kind <;>
    simp [hkind, StatementKind.handler?] at hhandler ⊢

theorem print_of_unlimited (hunlimited : machine.output.limit = none)
    (statement : Statement) :
    machine.performed statement .print =
      (.ok .next, { machine with
        output := machine.output.appended
          (String.join (machine.statementWrites statement)) }) := by
  simp only [performed, perform, print,
    OutputStream.writeAll_of_unlimited hunlimited]

/-- A print statement writes all that it writes without a limit, or stops at a
write that does not fit. -/
theorem truncates_print (hunlimited : machine.output.limit = none)
    (hhandler : statement.kind.handler? = some .print) (limit : Nat) :
    Truncates limit (.statement statement) machine
      (machine.performed statement .print) := by
  have hcompletes : Completes (.statement statement) (machine.limited limit)
      [⟨statement, machine.limited limit⟩]
      ((machine.limited limit).performed statement .print) :=
    .simple hhandler rfl
  rw [print_of_unlimited hunlimited]
  rcases (machine.limited limit).output.writeAll_cases
      ((machine.limited limit).statementWrites statement) with
    hall | ⟨done, text, later, hwrites, hfull, hstops⟩
  · have hsame : (machine.limited limit).performed statement .print =
        (.ok .next, { machine with
          output := machine.output.appended
            (String.join (machine.statementWrites statement)) }.limited
              limit) := by
      simp only [performed, perform, print, hall]
      rfl
    rw [hsame] at hcompletes
    exact .same hcompletes
  · have hfails : (machine.limited limit).performed statement .print =
        (.error ⟨.stream "output limit", some statement.lineNo⟩,
          { machine.limited limit with
            output := (machine.limited limit).output.appended
              (String.join done) }) := by
      simp only [performed, perform, print, hstops]
      rfl
    rw [hfails] at hcompletes
    refine .cut hcompletes
      ⟨[], statement, _, rfl,
        ⟨kind_of_print hhandler, done, text, later, hwrites, rfl, hfull⟩, rfl⟩
      ⟨text ++ String.join later, ?_, ?_⟩
    · simp [OutputStream.ne_empty_of_not_fits hfull]
    · have hwritten : machine.statementWrites statement =
          done ++ text :: later := hwrites
      simp [OutputStream.appended, hwritten, limited, String.append_assoc]

/-- The step of one handler. -/
theorem truncates_performed {handler : Handler}
    (hunlimited : machine.output.limit = none)
    (hhandler : statement.kind.handler? = some handler)
    (hsimple : handler.isSimple = true) (limit : Nat) :
    Truncates limit (.statement statement) machine
      (machine.performed statement handler) := by
  by_cases hprint : handler = .print
  · subst hprint
    exact truncates_print hunlimited hhandler limit
  · have hcompletes : Completes (.statement statement)
        (machine.limited limit) _ _ := .simple hhandler hsimple
    rw [performed_limited machine limit statement hprint] at hcompletes
    exact .same hcompletes

end Steps

/-- A run under a limit goes along with the run without one, rule by rule, up to
the first write that fails.  From there on it only leaves blocks and calls, while
the output of the other run grows. -/
theorem Completes.truncates {task : Task} {machine : Machine}
    {trace : List Activation} {outcome : Outcome}
    (hcompletes : Completes task machine trace outcome)
    (hunlimited : machine.output.limit = none) (limit : Nat) :
    Truncates limit task machine outcome := by
  induction hcompletes with
  | nil => exact .same .nil
  | next hfirst hlater ihFirst ihRest =>
      have hafter := (hfirst.related respected_grows).limit_eq.trans hunlimited
      cases ihFirst hunlimited with
      | same hstatement =>
          cases ihRest hafter with
          | same hstatements => exact .same (.next hstatement hstatements)
          | cut hstatements hcut hlacks =>
              exact .cut (.next hstatement hstatements) (hcut.append _) hlacks
      | cut hstatement hcut hlacks =>
          exact .cut (.stop hstatement hcut.ne_next) hcut
            (hlacks.grows (hlater.related respected_grows))
  | stop _ hstops ih =>
      cases ih hunlimited with
      | same hstatement => exact .same (.stop hstatement hstops)
      | cut hstatement hcut hlacks =>
          exact .cut (.stop hstatement hcut.ne_next) hcut hlacks
  | halt hhandler => exact .same (.halt hhandler)
  | leave hhandler => exact .same (.leave hhandler)
  | simple hhandler hsimple =>
      exact truncates_performed hunlimited hhandler hsimple limit
  | block hhandler _ ih =>
      cases ih hunlimited with
      | same hblock => exact .same (.block hhandler hblock)
      | cut hblock hcut hlacks =>
          exact .cut (.block hhandler hblock) (hcut.atLine _) hlacks
  | call hhandler _ ih =>
      cases ih hunlimited with
      | same hcall => exact .same (.call hhandler hcall)
      | cut hcall hcut hlacks =>
          exact .cut (.call hhandler hcall) (hcut.atLine _) hlacks
  | undecided hcondition => exact .same (.undecided hcondition)
  | skipped hcondition => exact .same (.skipped hcondition)
  | @again statement machine _ _ _ _ hcondition hloop hbody hrest ihBody
      ihRest =>
      have hafter := (hbody.related respected_grows).limit_eq.trans hunlimited
      cases ihBody hunlimited with
      | same hscope =>
          cases ihRest hafter with
          | same hblock =>
              exact .same (.again hcondition hloop hscope hblock)
          | cut hblock hcut hlacks =>
              exact .cut (.again hcondition hloop hscope hblock)
                (hcut.append (⟨statement, machine.limited limit⟩ :: _)) hlacks
      | cut hscope hcut hlacks =>
          -- The body has failed, so the loop makes no further round.
          exact .cut (.once hcondition (absurd · hcut.ne_next) hscope)
            (hcut.append [⟨statement, machine.limited limit⟩])
            (hlacks.grows (hrest.related respected_grows))
  | @once statement machine _ _ hcondition hends _ ih =>
      cases ih hunlimited with
      | same hscope => exact .same (.once hcondition hends hscope)
      | cut hscope hcut hlacks =>
          exact .cut (.once hcondition (absurd · hcut.ne_next) hscope)
            (hcut.append [⟨statement, machine.limited limit⟩]) hlacks
  | @scope body machine _ _ _ ih =>
      cases ih hunlimited with
      | same hbody =>
          have hscope : Completes (.scope body) (machine.limited limit) _ _ :=
            .scope hbody
          exact .same hscope
      | cut hbody hcut hlacks =>
          exact .cut (.scope hbody) hcut.exitBlock hlacks
  | refused hcallee => exact .same (.refused hcallee)
  | @called statement procedure machine _ _ hcallee _ ih =>
      have hlimited : (machine.limited limit).callee statement =
          .ok procedure := hcallee
      cases ih hunlimited with
      | same hscope =>
          have hcall : Completes (.call statement) (machine.limited limit) _ _ :=
            .called hlimited hscope
          exact .same hcall
      | cut hscope hcut hlacks =>
          have hinside := hcut.append [⟨statement, machine.limited limit⟩]
          exact .cut (.called hlimited hscope) hinside.exitCall hlacks

/-- A program that ends without a limit on its output ends under every limit, and
its output is the front of what it is without one.  If nothing is missing, both
runs come to the same result and leave the same machine.  Otherwise the run under
the limit fails at the line of a print statement of the program, or of a procedure
that was there before: one write of this statement failed, the output ends with
the writes before it, and no handler went to work afterwards. -/
theorem output_limit_only_truncates {program : Program} {machine : Machine}
    {outcome : Outcome} (hunlimited : machine.output.limit = none)
    (hflush : machine.output.flush = .ok ())
    (hexecutes : Executes program machine outcome) (limit : Nat) :
    ∃ ended, Executes program (machine.limited limit) ended ∧
      (∃ missing,
        outcome.2.output.written = ended.2.output.written ++ missing) ∧
      (ended.2.output.written = outcome.2.output.written →
        ended = (outcome.1, outcome.2.limited limit)) ∧
      (ended.2.output.written ≠ outcome.2.output.written →
        ∃ front statement point,
          Completes (.statements program.statements)
            ((machine.limited limit).declareArguments program.arguments)
            (front ++ [⟨statement, point⟩]) ended ∧
          ended.1 =
            .error ⟨.stream "output limit", some statement.lineNo⟩ ∧
          FailedWrite statement point ended.2.output ∧
          machine.Knows program.statements statement) := by
  have hlimited : (machine.limited limit).output.flush = .ok () := hflush
  obtain ⟨trace, hcompletes⟩ :=
    runsTo_iff_exists_completes.mp ((executes_iff_runsTo hflush).mp hexecutes)
  cases hcompletes.truncates hunlimited limit with
  | same hsame =>
      have hruns := runsTo_iff_exists_completes.mpr ⟨_, hsame⟩
      refine ⟨_, (executes_iff_runsTo hlimited).mpr hruns, ?_, ?_, ?_⟩
      · exact ⟨"", String.append_empty.symm⟩
      · intro _
        rfl
      · intro hmissing
        exact absurd rfl hmissing
  | @cut _ ended hended hcut hlacks =>
      have hruns := runsTo_iff_exists_completes.mpr ⟨_, hended⟩
      obtain ⟨missing, hmissing, hwritten⟩ := hlacks
      refine ⟨ended, (executes_iff_runsTo hlimited).mpr hruns,
        ⟨missing, hwritten⟩, ?_, ?_⟩
      · intro hwhole
        rw [hwhole] at hwritten
        exact absurd (String.append_eq_left_iff.mp hwritten.symm) hmissing
      · intro _
        obtain ⟨front, statement, point, rfl, hfailed, hresult⟩ := hcut
        have hknown := hended.knows ⟨statement, point⟩ (by simp)
        exact ⟨front, statement, point, hended, hresult, hfailed, hknown⟩

/-- A branch that prints two words on a line. -/
def printingBranch : Program where
  statements :=
    [{ kind := .branch, line := ["if", "true", "\x7b"], lineNo := 1
       expression := { left := "true" }
       body :=
        [{ kind := .printLn, line := ["println", "hi", "there"], lineNo := 2
           expression := { left := "hi", middle := "there" } }] }]
  arguments := .ofList []

/-- The machine after the branch, with what came to its output. -/
def afterBranch (written : String) : Machine where
  store :=
    { innermost := [(Word.arguments, ⟨.array [], true⟩)]
      log := #[.entering 1] }
  output := { written }

/-- The whole line needs nine bytes.  With four, the second word does not fit, and
the output ends with the space in front of it. -/
theorem printingBranch_truncated :
    Executes printingBranch {} (.ok .next, afterBranch "hi there\n") ∧
    Executes printingBranch (limited {} 9)
      (.ok .next, (afterBranch "hi there\n").limited 9) ∧
    Executes printingBranch (limited {} 4)
      (.error ⟨.stream "output limit", some 2⟩,
        (afterBranch "hi ").limited 4) ∧
    ∃ statement point, statement.lineNo = 2 ∧
      FailedWrite statement point ((afterBranch "hi ").limited 4).output := by
  have hwhole : Executes printingBranch {}
      (.ok .next, afterBranch "hi there\n") := ⟨9, rfl⟩
  have hcut : Executes printingBranch (limited {} 4)
      (.error ⟨.stream "output limit", some 2⟩,
        (afterBranch "hi ").limited 4) := ⟨9, rfl⟩
  have hfits : Executes printingBranch (limited {} 9)
      (.ok .next, (afterBranch "hi there\n").limited 9) := ⟨9, rfl⟩
  obtain ⟨ended, hended, _, _, hfailed⟩ :=
    output_limit_only_truncates rfl rfl hwhole 4
  obtain rfl := RunsTo.unique ((executes_iff_runsTo rfl).mp hended)
    ((executes_iff_runsTo rfl).mp hcut)
  obtain ⟨_, statement, point, _, hresult, hwrite, _⟩ :=
    hfailed (by decide)
  have hline : statement.lineNo = 2 := by simpa [eq_comm] using hresult
  exact ⟨hwhole, hfits, hcut, statement, point, hline, hwrite⟩

end Machine

end LineScript
