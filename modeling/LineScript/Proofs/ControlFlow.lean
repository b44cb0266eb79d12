/-
The flow of control in parsed programs.  The parser accepts only lines whose kind
has a handler, so a parsed program never halts.  A return ends the call that it
stands in, however many blocks and loops are around it; outside of all calls it
ends the program, and nothing goes to work after it.
-/
import LineScript.Proofs.CodeInvariants
import LineScript.Proofs.ParseRelation

namespace LineScript

/-- A statement that can be carried out. -/
def Statement.Handled (statement : Statement) : Prop :=
  statement.kind.handler?.isSome = true

/-- The marks of blocks have no shape of a line. -/
theorem handled_of_operandSlots {kind : StatementKind} {tokens : List String}
    {expression : Expression}
    (hslots : operandSlots kind tokens = .ok expression) :
    kind.handler?.isSome = true := by
  obtain ⟨_, _, hshape⟩ := bind_eq_ok_iff.mp hslots
  cases kind with
  | blockOpen | blockClose | unknown => contradiction
  | _ => rfl

theorem Parses.handled {lines : List SourceLine} {statements : List Statement}
    (hparses : Parses lines statements) :
    Everywhere Statement.Handled statements := by
  induction hparses with
  | nil => exact .nil
  | blank _ _ ih => exact ih
  | plain _ hline _ _ ih =>
      obtain ⟨kind, expression, _, hslots, rfl⟩ := parseLine_eq_ok_iff.mp hline
      exact .cons (handled_of_operandSlots hslots) .nil ih
  | block _ hline _ _ _ _ ihBody ihRest =>
      obtain ⟨kind, expression, _, hslots, rfl⟩ := parseLine_eq_ok_iff.mp hline
      exact .cons (handled_of_operandSlots hslots) ihBody ihRest

theorem handled_of_parseSource {source : String} {arguments : List String}
    {program : Program} (hparse : parseSource source arguments = .ok program) :
    Everywhere Statement.Handled program.statements :=
  (parses_of_parseProgram hparse).handled

theorem handler?_eq_leave_iff {kind : StatementKind} :
    kind.handler? = some .leave ↔ kind = .leave := by
  cases kind <;> simp [StatementKind.handler?]

namespace Machine

section Results

variable {machine : Machine} {statement : Statement} {handler : Handler}

/-- A statement without a body hands control to the next one or fails. -/
theorem performed_ok {flow : Flow}
    (hflow : (machine.performed statement handler).1 = .ok flow) :
    flow = .next := by
  unfold performed at hflow
  split at hflow
  · exact (Except.ok.inj hflow).symm
  · contradiction

theorem flow_atLine_iff {outcome : Outcome} {line : Nat} {flow : Flow} :
    (outcome.atLine line).1 = .ok flow ↔ outcome.1 = .ok flow := by
  rcases outcome with ⟨error | ended, after⟩
  · exact iff_of_false nofun nofun
  · exact Iff.rfl

theorem map_afterCall_ne_leave (result : Except RunError Flow) :
    result.map Flow.afterCall ≠ .ok .leave := by
  rcases result with error | (_ | _ | _) <;> simp [Except.map, Flow.afterCall]

theorem map_afterCall_eq_halt_iff {result : Except RunError Flow} :
    result.map Flow.afterCall = .ok .halt ↔ result = .ok .halt := by
  rcases result with error | (_ | _ | _) <;> simp [Except.map, Flow.afterCall]

end Results

/-- Where all code can be carried out, nothing halts the program. -/
theorem Completes.ne_halt {task : Task} {machine : Machine}
    {trace : List Activation} {outcome : Outcome}
    (hcompletes : Completes task machine trace outcome)
    (hcode : Everywhere Statement.Handled task.code)
    (hregisters : machine.Registers Statement.Handled) :
    outcome.1 ≠ .ok .halt := by
  induction hcompletes with
  | nil | leave _ | undecided _ | skipped _ | refused _ => simp [Outcome.fault]
  | next hfirst _ _ ihRest =>
      obtain ⟨hafter, _⟩ := hfirst.keeps_code hcode.head hregisters
      exact ihRest hcode.tail hafter
  | stop _ _ ih => exact ih hcode.head hregisters
  | halt hhandler =>
      have hhandled := hcode.holds
      simp [Statement.Handled, hhandler] at hhandled
  | simple _ _ =>
      intro hhalt
      have hnext := performed_ok hhalt
      contradiction
  | block _ _ ih | call _ _ ih =>
      intro hhalt
      exact ih hcode hregisters (flow_atLine_iff.mp hhalt)
  | again _ _ hbody _ _ ihRest =>
      obtain ⟨hafter, _⟩ := hbody.keeps_code hcode.body hregisters
      exact ihRest hcode hafter
  | once _ _ _ ih => exact ih hcode.body hregisters
  | scope _ ih => exact ih hcode hregisters
  | called hcallee _ ih =>
      obtain ⟨hentry, _⟩ := mem_procedures_of_callee hcallee
      intro hhalt
      exact ih (hregisters _ hentry) hregisters
        (map_afterCall_eq_halt_iff.mp hhalt)

theorem Completes.ne_leave_of_call {statement : Statement} {machine : Machine}
    {trace : List Activation} {outcome : Outcome}
    (hcompletes : Completes (.call statement) machine trace outcome) :
    outcome.1 ≠ .ok .leave := by
  cases hcompletes with
  | refused _ => simp [Outcome.fault]
  | called _ _ => exact map_afterCall_ne_leave _

/-- A return does not get past the call that it ends. -/
theorem Completes.ne_leave_of_kind {statement : Statement} {machine : Machine}
    {trace : List Activation} {outcome : Outcome}
    (hcompletes : Completes (.statement statement) machine trace outcome)
    (hkind : statement.kind = .call) : outcome.1 ≠ .ok .leave := by
  have hcall : statement.kind.handler? = some .call := by
    rw [hkind]
    rfl
  intro hleave
  cases hcompletes with
  | halt hhandler => rw [hcall] at hhandler; contradiction
  | leave hhandler => rw [hcall] at hhandler; contradiction
  | simple _ _ =>
      have hnext := performed_ok hleave
      contradiction
  | block hhandler _ => rw [hcall] at hhandler; contradiction
  | call _ hinside =>
      exact hinside.ne_leave_of_call (flow_atLine_iff.mp hleave)

/-- A return that is carried out while so many calls are active. -/
def Activation.Returns (depth : Nat) (activation : Activation) : Prop :=
  activation.statement.kind = .leave ∧ activation.machine.calls = depth

theorem Activation.not_returns_of_kind {statement : Statement}
    (hkind : statement.kind ≠ .leave) (machine : Machine) (depth : Nat) :
    ¬ (⟨statement, machine⟩ : Activation).Returns depth :=
  fun hreturns => hkind hreturns.1

/-- At the given depth of calls there is one return at the end, if that is how the
run ends, and none otherwise. -/
inductive ReturnsLast (depth : Nat) :
    List Activation → Except RunError Flow → Prop
  | leave {front : List Activation} {last : Activation} :
    (∀ activation ∈ front, ¬ activation.Returns depth) →
      last.Returns depth → ReturnsLast depth (front ++ [last]) (.ok .leave)
  | stay {trace : List Activation} {result : Except RunError Flow} :
    (∀ activation ∈ trace, ¬ activation.Returns depth) →
      result ≠ .ok .leave → ReturnsLast depth trace result

namespace ReturnsLast

variable {depth : Nat} {trace : List Activation}
  {result : Except RunError Flow}

theorem append {before : List Activation}
    (hbefore : ∀ activation ∈ before, ¬ activation.Returns depth)
    (hlast : ReturnsLast depth trace result) :
    ReturnsLast depth (before ++ trace) result := by
  rcases hlast with ⟨hfront, hreturns⟩ | ⟨hnone, hresult⟩
  · rw [← List.append_assoc]
    exact .leave (List.forall_mem_append.mpr ⟨hbefore, hfront⟩) hreturns
  · exact .stay (List.forall_mem_append.mpr ⟨hbefore, hnone⟩) hresult

theorem cons {first : Activation} (hfirst : ¬ first.Returns depth)
    (hlast : ReturnsLast depth trace result) :
    ReturnsLast depth (first :: trace) result :=
  hlast.append (List.forall_mem_singleton.mpr hfirst)

theorem none_of_ne (hlast : ReturnsLast depth trace result)
    (hresult : result ≠ .ok .leave) :
    ∀ activation ∈ trace, ¬ activation.Returns depth := by
  rcases hlast with ⟨_, _⟩ | ⟨hnone, _⟩
  · contradiction
  · exact hnone

/-- Another result that leaves under the same condition. -/
theorem congr {other : Except RunError Flow}
    (hlast : ReturnsLast depth trace result)
    (hiff : other = .ok .leave ↔ result = .ok .leave) :
    ReturnsLast depth trace other := by
  rcases hlast with ⟨hfront, hreturns⟩ | ⟨hnone, hresult⟩
  · rw [hiff.mpr rfl]
    exact .leave hfront hreturns
  · exact .stay hnone (fun hleave => hresult (hiff.mp hleave))

theorem single {statement : Statement} {machine : Machine}
    (hkind : statement.kind ≠ .leave) (hresult : result ≠ .ok .leave) :
    ReturnsLast depth [⟨statement, machine⟩] result := by
  have hown := Activation.not_returns_of_kind hkind machine depth
  exact .stay (List.forall_mem_singleton.mpr hown) hresult

/-- The run leaves exactly if there is a return at this depth. -/
theorem leaves_iff (hlast : ReturnsLast depth trace result) :
    result = .ok .leave ↔
      ∃ activation ∈ trace, activation.Returns depth := by
  rcases hlast with ⟨_, hreturns⟩ | ⟨hnone, hresult⟩
  · exact iff_of_true rfl ⟨_, by simp, hreturns⟩
  · refine iff_of_false hresult ?_
    rintro ⟨activation, hmem, hreturns⟩
    exact hnone activation hmem hreturns

/-- Nothing goes to work after a return at this depth. -/
theorem eq_nil_of_returns (hlast : ReturnsLast depth trace result)
    {front back : List Activation} {activation : Activation}
    (htrace : trace = front ++ activation :: back)
    (hreturns : activation.Returns depth) : back = [] := by
  cases hlast with
  | @leave before last hfront _ =>
      rcases List.eq_nil_or_concat back with rfl | ⟨inner, final, rfl⟩
      · rfl
      · -- The return would stand in front of the last activation.
        have hsplit : before ++ [last] =
            (front ++ activation :: inner) ++ [final] := by simp [htrace]
        obtain ⟨rfl, _⟩ := List.append_inj' hsplit rfl
        exact absurd hreturns (hfront activation (by simp))
  | stay hnone _ => exact absurd hreturns (hnone activation (by simp [htrace]))

end ReturnsLast

/-- At least so many calls are active. -/
theorem persists_calls (depth : Nat) :
    Persists Resumes fun machine => depth ≤ machine.calls where
  kept hresumes hcalls := by
    rw [hresumes.calls]
    exact hcalls
  block hcalls := hcalls
  call hcalls := Nat.le_succ_of_le hcalls

/-- The activations inside a call have more active calls than the call. -/
theorem Completes.not_returns_of_lt {task : Task} {machine : Machine}
    {trace : List Activation} {outcome : Outcome} {depth : Nat}
    (hcompletes : Completes task machine trace outcome)
    (hdepth : depth < machine.calls) :
    ∀ activation ∈ trace, ¬ activation.Returns depth := by
  intro activation hmem hreturns
  have hcalls := hcompletes.holds respected_resumes (persists_calls machine.calls)
    (Nat.le_refl machine.calls) activation hmem
  have heq := hreturns.2
  omega

theorem kind_ne_leave {statement : Statement} {handler : Handler}
    (hhandler : statement.kind.handler? = some handler)
    (hleave : handler ≠ .leave) : statement.kind ≠ .leave := by
  intro hkind
  rw [handler?_eq_leave_iff.mpr hkind, Option.some.injEq] at hhandler
  exact hleave hhandler.symm

/-- However deep in blocks and loops, a return at the depth of a task ends the
task; returns inside calls are at a greater depth. -/
theorem Completes.returnsLast {task : Task} {machine : Machine}
    {trace : List Activation} {outcome : Outcome}
    (hcompletes : Completes task machine trace outcome)
    (hdispatched : task.Dispatched) :
    ReturnsLast machine.calls trace outcome.1 := by
  induction hcompletes with
  | nil => exact .stay (by simp) (by simp)
  | next hfirst _ ihFirst ihRest =>
      have hcalls := (hfirst.related respected_resumes).calls
      have hnone := (ihFirst trivial).none_of_ne (by simp)
      have hrest := ihRest trivial
      rw [hcalls] at hrest
      exact hrest.append hnone
  | stop _ _ ih => exact ih trivial
  | halt hhandler =>
      refine .single ?_ (by simp)
      intro hkind
      rw [handler?_eq_leave_iff.mpr hkind] at hhandler
      contradiction
  | @leave statement machine hhandler =>
      have hkind := handler?_eq_leave_iff.mp hhandler
      have hreturns : (⟨statement, machine⟩ : Activation).Returns
        machine.calls := ⟨hkind, rfl⟩
      exact @ReturnsLast.leave machine.calls [] _ nofun hreturns
  | @simple statement handler machine hhandler hsimple =>
      have hleave : handler ≠ .leave := by
        rintro rfl
        contradiction
      refine .single (kind_ne_leave hhandler hleave) ?_
      intro hresult
      have hnext := performed_ok hresult
      contradiction
  | block hhandler _ ih | call hhandler _ ih =>
      exact (ih hhandler).congr flow_atLine_iff
  | undecided _ | skipped _ =>
      exact .single (kind_ne_leave hdispatched (by simp)) (by simp [Outcome.fault])
  | again _ _ hbody _ ihBody ihRest =>
      have hkind := kind_ne_leave hdispatched (by simp)
      have hcalls := (hbody.related respected_resumes).calls
      have hinside := (ihBody trivial).none_of_ne (by simp)
      have hrest := ihRest hdispatched
      rw [hcalls] at hrest
      exact (hrest.append hinside).cons (Activation.not_returns_of_kind hkind _ _)
  | once _ _ _ ih =>
      have hkind := kind_ne_leave hdispatched (by simp)
      exact (ih trivial).cons (Activation.not_returns_of_kind hkind _ _)
  | scope _ ih => exact ih trivial
  | refused _ =>
      exact .single (kind_ne_leave hdispatched (by simp)) (by simp [Outcome.fault])
  | @called _ _ machine _ outcome _ hbody _ =>
      have hkind := kind_ne_leave hdispatched (by simp)
      have hinside := hbody.not_returns_of_lt (Nat.lt_succ_self machine.calls)
      exact (ReturnsLast.stay hinside (map_afterCall_ne_leave outcome.1)).cons
        (Activation.not_returns_of_kind hkind _ _)

/-- The machine on which a program starts in a new session. -/
def started (program : Program) (log : Array ScopeEvent) (callLimit : Nat)
    (input : InputStream) (output : OutputStream) : Machine :=
  (fresh log callLimit input output).declareArguments program.arguments

/-- Every statement of a parsed program has a handler.  On a fresh machine no part
of the program ever halts and no successful call hands on a return.  A run whose
last flush succeeds leaves the program exactly if a return went to work outside of
all calls, and then nothing went to work after it. -/
theorem parsed_program_flow {source : String} {arguments : List String}
    {program : Program} (hparse : parseSource source arguments = .ok program)
    (log : Array ScopeEvent) (callLimit : Nat) (input : InputStream)
    (output : OutputStream) :
    (∀ statement, Within program.statements statement →
      statement.kind.handler?.isSome = true) ∧
    (∀ rest point,
      Passes program.statements (started program log callLimit input output)
        rest point →
      (∀ outcome, RunsTo rest point outcome → outcome.1 ≠ .ok .halt) ∧
      ∀ statement later, rest = statement :: later →
        ∀ budget flow after,
          runStatement budget statement point = some (.ok flow, after) →
          flow ≠ .halt ∧ (statement.kind = .call → flow = .next)) ∧
    (∀ budget outcome,
      execute budget program (fresh log callLimit input output) =
        some outcome →
      outcome.2.output.flush = .ok () →
      (∃ trace, Completes (.statements program.statements)
        (started program log callLimit input output) trace outcome) ∧
      ∀ trace, Completes (.statements program.statements)
          (started program log callLimit input output) trace outcome →
        (outcome.1 = .ok .leave ↔
          ∃ activation ∈ trace, activation.statement.kind = .leave ∧
            activation.machine.calls = 0) ∧
        ∀ front activation back, trace = front ++ activation :: back →
          activation.statement.kind = .leave →
          activation.machine.calls = 0 → back = []) := by
  have hcode := handled_of_parseSource hparse
  refine ⟨hcode, ?_, ?_⟩
  · intro rest point hpasses
    obtain ⟨hrest, hpoint⟩ := hpasses.keeps_code hcode nofun
    constructor
    · rintro outcome ⟨budget, hrun⟩
      obtain ⟨trace, hcompletes⟩ := derived budget (.statements rest) hrun
      exact hcompletes.ne_halt hrest hpoint
    · rintro statement later rfl budget flow after hrun
      obtain ⟨trace, hcompletes⟩ := derived budget (.statement statement) hrun
      have hhalt : flow ≠ .halt := by
        rintro rfl
        exact hcompletes.ne_halt hrest.head hpoint rfl
      refine ⟨hhalt, ?_⟩
      intro hkind
      have hleave := hcompletes.ne_leave_of_kind hkind
      rcases flow with _ | _ | _
      · rfl
      · exact absurd rfl hleave
      · exact absurd rfl hhalt
  · intro budget outcome hrun hflush
    constructor
    · obtain ⟨trace, ended, hcompletes, hflushed⟩ :=
        exists_execute_iff.mp ⟨budget, hrun⟩
      rw [eq_of_flushed hflushed hflush] at hcompletes
      exact ⟨trace, hcompletes⟩
    · intro trace hcompletes
      have hlast := hcompletes.returnsLast trivial
      refine ⟨hlast.leaves_iff, ?_⟩
      intro front activation back htrace hkind hcalls
      exact hlast.eq_nil_of_returns htrace ⟨hkind, hcalls⟩

/-- A procedure that returns, and a program that returns after calling it. -/
def returnTwice : String :=
  "function f : x \x7b\nreturn\n\x7d\ncall f 1\nreturn\nprint a"

/-- The parsed program. -/
def returnTwiceProgram : Program where
  statements :=
    [{ kind := .define, line := ["function", "f", ":", "x", "\x7b"], lineNo := 1
       expression := { left := "x" }
       body := [{ kind := .leave, line := ["return"], lineNo := 2 }] },
      { kind := .call, line := ["call", "f", "1"], lineNo := 4
        expression := { left := "1" } },
      { kind := .leave, line := ["return"], lineNo := 5 },
      { kind := .print, line := ["print", "a"], lineNo := 6
        expression := { left := "a" } }]
  arguments := .ofList []

theorem parseSource_returnTwice :
    parseSource returnTwice [] = .ok returnTwiceProgram := by
  have hlines : sourceLines returnTwice =
      numberFrom 1 ["function f : x \x7b", "return", "\x7d", "call f 1",
        "return", "print a"] := by decide +kernel
  have hinner : Parses [⟨2, "return"⟩]
      [{ kind := .leave, line := ["return"], lineNo := 2 }] :=
    .plain (by decide +kernel)
      (parseLine_eq_ok_iff.mpr ⟨.leave, {}, rfl, rfl, rfl⟩) rfl .nil
  have hparses : Parses (sourceLines returnTwice)
      returnTwiceProgram.statements := by
    rw [hlines]
    refine .block (by decide +kernel)
      (parseLine_eq_ok_iff.mpr ⟨.define, { left := "x" }, rfl, rfl, rfl⟩) rfl rfl
      hinner ?_
    refine .plain (by decide +kernel)
      (parseLine_eq_ok_iff.mpr ⟨.call, { left := "1" }, rfl, rfl, rfl⟩) rfl ?_
    refine .plain (by decide +kernel)
      (parseLine_eq_ok_iff.mpr ⟨.leave, {}, rfl, rfl, rfl⟩) rfl ?_
    exact .plain (by decide +kernel)
      (parseLine_eq_ok_iff.mpr ⟨.print, { left := "a" }, rfl, rfl, rfl⟩) rfl .nil
  rw [parseSource, parseProgram, parseStatements_eq_ok_iff.mpr hparses]
  rfl

/-- The return inside the call does not end the program, the one behind it
does. -/
theorem returnTwice_leaves :
    parseSource returnTwice [] = .ok returnTwiceProgram ∧
    ∃ after,
      execute 9 returnTwiceProgram (fresh #[] defaultCallLimit {} {}) =
        some (.ok .leave, after) ∧
      after.output.written = "" ∧
      ∃ trace, Completes (.statements returnTwiceProgram.statements)
          (started returnTwiceProgram #[] defaultCallLimit {} {}) trace
          (.ok .leave, after) ∧
        ∃ activation ∈ trace, activation.statement.kind = .leave ∧
          activation.machine.calls = 0 := by
  refine ⟨parseSource_returnTwice, ?_⟩
  let after : Machine :=
    { store := { innermost := [(Word.arguments, ⟨.array [], true⟩)]
                 log := #[.entering 1] }
      procedures := [("f", ⟨{ left := "x" },
        [{ kind := .leave, line := ["return"], lineNo := 2 }]⟩)] }
  have hrun : execute 9 returnTwiceProgram (fresh #[] defaultCallLimit {} {}) =
      some (.ok .leave, after) := rfl
  obtain ⟨_, _, hruns⟩ := parsed_program_flow parseSource_returnTwice #[]
    defaultCallLimit {} {}
  obtain ⟨⟨trace, hcompletes⟩, hflow⟩ := hruns 9 _ hrun rfl
  exact ⟨after, hrun, rfl, trace, hcompletes, (hflow trace hcompletes).1.mp rfl⟩

end Machine

end LineScript
