/-
A loop that counts a variable up to a limit.  Condition and body go through the
texts of the integers, and one round adds one to the variable, opens and closes
a frame and changes nothing else.  Below the limit there is a next integer, so
no round overflows, and the number of rounds is the distance between the two
integers.
-/
import LineScript.Proofs.ConstantVariables
import LineScript.Proofs.JoinedLines
import LineScript.Proofs.NumberLiterals
import LineScript.Proofs.OutputGrowth

namespace LineScript

/-- The source of a program that counts a variable from an integer up to a
limit. -/
def countingSource (start limit : Int64) : String :=
  "\n".intercalate
    ["var i = " ++ integerText start,
      "while i < " ++ integerText limit ++ " \x7b",
      "i = i + 1",
      "\x7d"]

/-- The statement that declares the variable, on the first line. -/
def startCounting (start : Int64) : Statement where
  kind := .declare
  line := ["var", "i", "=", integerText start]
  lineNo := 1
  expression := { left := integerText start }

/-- The statement that adds one to the variable, on the third line. -/
def countOn : Statement where
  kind := .assign
  line := ["i", "=", "i", "+", "1"]
  lineNo := 3
  expression := ⟨"i", "+", "1"⟩

/-- The loop, on the second line. -/
def countingLoop (limit : Int64) : Statement where
  kind := .loop
  line := ["while", "i", "<", integerText limit, "\x7b"]
  lineNo := 2
  expression := ⟨"i", "<", integerText limit⟩
  body := [countOn]

section Source

variable (start limit : Int64)

theorem startCounting_accepted : (startCounting start).Accepted where
  words := by
    have hwords : ∀ token ∈ ["var", "i", "="], IsWord token := by
      decide +kernel
    exact List.forall_mem_append.mpr
      ⟨hwords, List.forall_mem_singleton.mpr (isWord_integerText start)⟩
  kind := rfl
  slots := rfl

theorem countOn_accepted : countOn.Accepted where
  words := by decide +kernel
  kind := rfl
  slots := rfl

theorem countingLoop_accepted : (countingLoop limit).Accepted where
  words := by
    have hfront : ∀ token ∈ ["while", "i", "<"], IsWord token := by
      decide +kernel
    have hback : IsWord "\x7b" := by decide +kernel
    exact List.forall_mem_append.mpr ⟨hfront,
      List.forall_mem_cons.mpr ⟨isWord_integerText limit,
        List.forall_mem_singleton.mpr hback⟩⟩
  kind := rfl
  slots := rfl

theorem counting_writable :
    Writable [startCounting start, countingLoop limit] := by
  have hmark (mark : String) (fault : IntegerFault)
      (hread : readInteger mark = .error fault) :
      (startCounting start).line.getLast? ≠ some mark := by
    intro hlast
    exact integerText_ne hread start (Option.some.inj hlast)
  have hbody : Writable [countOn] :=
    .plain countOn_accepted rfl rfl rfl (by decide) (by decide) .nil
  refine .plain (startCounting_accepted start) rfl rfl rfl
    (hmark _ .invalidDigit rfl) (hmark _ .invalidDigit rfl) ?_
  exact .block (countingLoop_accepted limit) rfl rfl hbody .nil

theorem counting_renderedLines :
    renderedLines [startCounting start, countingLoop limit] =
      ["var i = " ++ integerText start,
        "while i < " ++ integerText limit ++ " \x7b",
        "i = i + 1",
        "\x7d"] := by
  have hstart : (startCounting start).toSource =
      "var i = " ++ integerText start := by
    simp [Statement.toSource, startCounting, ← String.toList_inj]
  have hloop : (countingLoop limit).toSource =
      "while i < " ++ integerText limit ++ " \x7b" := by
    simp [Statement.toSource, countingLoop, ← String.toList_inj]
  have hbody : countOn.toSource = "i = i + 1" := by decide +kernel
  rw [renderedLines, layOut_plain _ _ rfl, layOut_block _ _ rfl, layOut_nil,
    hstart, hloop, countingLoop, layOut_plain _ _ rfl, layOut_nil, hbody]
  rfl

theorem parseSource_countingSource (arguments : List String) :
    parseSource (countingSource start limit) arguments =
      .ok ⟨[startCounting start, countingLoop limit],
        .ofList arguments⟩ := by
  have hnumbered :
      numberStatements 1 [startCounting start, countingLoop limit] =
        [startCounting start, countingLoop limit] := by
    have hempty (first : Nat) : numberStatements first [] = [] := by
      rw [numberStatements]
    have hopens : countOn.opensBody = false := rfl
    have hbody : numberStatements 3 [countOn] = [countOn] := by
      rw [numberStatements_plain _ _ hopens, numberedFrom_eq, hempty]
      simp [countOn, hempty]
    rw [numberStatements_plain _ _ rfl, numberStatements_block _ _ rfl,
      numberedFrom_eq, numberedFrom_eq, hempty, startCounting, countingLoop,
      hbody, hempty]
  have hcomment : ∀ line ∈ renderedLines
      [startCounting start, countingLoop limit],
      line.toList.head? ≠ some '#' := by
    rw [counting_renderedLines]
    simp
  have hparse := (counting_writable start limit).parseSource_eq hcomment
    arguments
  rwa [counting_renderedLines, hnumbered] at hparse

end Source

section Next

variable {value limit : Int64}

/-- Below a limit there is a next integer. -/
theorem toInt_next (hbelow : value.toInt < limit.toInt) :
    (value + 1).toInt = value.toInt + 1 := by
  have hlow := value.le_toInt
  have hhigh := limit.toInt_lt
  have hone : (1 : Int64).toInt = 1 := rfl
  rw [Int64.toInt_add, hone]
  exact Int.bmod_eq_of_le (by omega) (by omega)

theorem applyInteger_next (hbelow : value.toInt < limit.toInt) :
    applyInteger .add value 1 = .ok (value + 1) := by
  have hnext := toInt_next hbelow
  have hfits := fitsInteger_toInt (value + 1)
  have hone : (1 : Int64).toInt = 1 := rfl
  rw [applyInteger_of_exact .sum, hone, ← hnext, if_pos hfits,
    Int64.ofInt_toInt]

theorem max_of_le (hle : value.toInt ≤ limit.toInt) : max value limit = limit :=
  if_pos (Int64.le_iff_toInt_le.mpr hle)

theorem max_of_ge (hge : limit.toInt ≤ value.toInt) :
    max value limit = value := by
  by_cases hle : value.toInt ≤ limit.toInt
  · rw [max_of_le hle]
    exact Int64.toInt_inj.mp (Int.le_antisymm hge hle)
  · exact if_neg fun h => hle (Int64.le_iff_toInt_le.mp h)

end Next

namespace Machine

/-- Neither a parameter nor a variable gets in the way of a number. -/
structure ReadsNumbers (machine : Machine) : Prop where
  unbound : machine.bindings = []
  literals : ∀ number, machine.store.get? (integerText number) = none

/-- The counting variable has this value. -/
structure Counts (machine : Machine) (value : Int64) : Prop
    extends ReadsNumbers machine where
  held : machine.store.get? "i" = some ⟨.int value, false⟩

section Numbers

variable {machine : Machine}

theorem ReadsNumbers.substitute_eq (hreads : machine.ReadsNumbers)
    (token : String) : machine.substitute token = token := by
  rw [substitute, hreads.unbound]

theorem ReadsNumbers.resolve_number (hreads : machine.ReadsNumbers)
    (number : Int64) : machine.resolve (integerText number) = .int number := by
  have hnonempty : integerText number ≠ "" := integerText_ne rfl number
  simp [resolve, hreads.substitute_eq, Store.value?, hreads.literals, hnonempty]

/-- The first statement declares the variable. -/
theorem ReadsNumbers.declare_eq (hreads : machine.ReadsNumbers)
    (hfree : machine.store.contains "i" = false) (start : Int64) :
    machine.declare (startCounting start) =
      .ok { machine with
        store := machine.store.declare "i" ⟨.int start, false⟩ } := by
  have hname : machine.targetName (startCounting start) = "i" :=
    hreads.substitute_eq "i"
  have hat : integerText start ≠ Word.arrayAt := integerText_ne rfl start
  have hlength : integerText start ≠ Word.arrayLength :=
    integerText_ne rfl start
  have hpop : integerText start ≠ Word.arrayPop := integerText_ne rfl start
  have hevaluate : machine.evaluate (startCounting start).expression none =
      .ok (.int start, machine.store) := by
    simp only [evaluate, startCounting, hreads.substitute_eq,
      if_neg hat, if_neg hlength, if_neg hpop, hreads.resolve_number,
      binaryValue, if_true]
    rfl
  rw [declare, hname, hfree]
  simp only [Bool.false_eq_true, if_false, hevaluate]
  rfl

end Numbers

namespace Counts

variable {machine : Machine} {value limit : Int64}

theorem resolve_variable (hcounts : machine.Counts value) :
    machine.resolve "i" = .int value := by
  simp [resolve, hcounts.substitute_eq, Store.value?, hcounts.held]

/-- The condition compares the two integers. -/
theorem blockCondition_eq (hcounts : machine.Counts value) :
    machine.blockCondition (countingLoop limit) =
      .ok (decide (value.toInt < limit.toInt)) := by
  have hcompared := compareValues_integers .below value limit
  have hcondition : machine.blockCondition (countingLoop limit) =
      machine.evaluateCondition (countingLoop limit).expression := rfl
  rw [hcondition, evaluateCondition, countingLoop, hcounts.resolve_variable,
    hcounts.resolve_number, hcounts.substitute_eq]
  exact hcompared

/-- One round adds one to the variable, without an overflow. -/
theorem assign_eq (hcounts : machine.Counts value)
    (hbelow : value.toInt < limit.toInt) :
    machine.assign countOn =
      .ok { machine with
        store := machine.store.setValue "i" (.int (value + 1)) } := by
  have hname : machine.targetName countOn = "i" := hcounts.substitute_eq "i"
  have hlookup : machine.lookup "i" = .ok ⟨.int value, false⟩ := by
    rw [lookup, hcounts.held]
  have hone : machine.resolve "1" = .int 1 := hcounts.resolve_number 1
  have hsum : binaryValue (.int value) "+" (.int 1) (some .int) =
      .ok (.int (value + 1)) := by
    have hvalue := binaryValue_integers .add value 1
      (show some Kind.int ≠ some .double by decide)
    rw [applyInteger_next hbelow] at hvalue
    exact hvalue
  have hevaluate : machine.evaluate countOn.expression (some .int) =
      .ok (.int (value + 1), machine.store) := by
    simp only [evaluate, countOn, hcounts.substitute_eq,
      hcounts.resolve_variable, hone, hsum]
    rfl
  rw [assign, hname, hlookup]
  simp only [bind, Except.bind, Value.kind, hevaluate]
  rfl

end Counts

/-- The store of a counting program in front of a round. -/
def countingStore (held : Value) (value : Int64) (rounds : Nat) : Store where
  innermost := [(Word.arguments, ⟨held, true⟩), ("i", ⟨.int value, false⟩)]
  log := Array.replicate rounds (.entering 1)

def counting (machine : Machine) (held : Value) (value : Int64)
    (rounds : Nat) : Machine :=
  { machine with store := countingStore held value rounds }

section Rounds

variable {machine : Machine} {held : Value} {value limit : Int64} {rounds : Nat}

theorem get?_integerText (number : Int64) :
    (countingStore held value rounds).get? (integerText number) = none := by
  have harguments : (integerText number == Word.arguments) = false :=
    beq_false_of_ne (integerText_ne rfl number)
  have hvariable : (integerText number == "i") = false :=
    beq_false_of_ne (integerText_ne rfl number)
  simp [countingStore, Store.get?, Store.frames, Frame.get?, List.lookup_cons,
    harguments, hvariable]

theorem counts_counting (hunbound : machine.bindings = []) :
    (machine.counting held value rounds).Counts value where
  unbound := hunbound
  literals := get?_integerText
  held := rfl

theorem Counts.enterBlock (hcounts : machine.Counts value) :
    machine.enterBlock.Counts value where
  unbound := hcounts.unbound
  literals := hcounts.literals
  held := hcounts.held

/-- The store after one round. -/
theorem exit_setValue (next : Int64) :
    ((countingStore held value rounds).enter.setValue "i" (.int next)).exit.2 =
      countingStore held next (rounds + 1) := by
  simp [countingStore, Store.enter, Store.setValue, Store.modify, Store.exit,
    Frame.modify, Frame.names, Store.depth, Array.replicate_succ,
    Word.arguments]

/-- One round of the loop. -/
theorem completes_round (hunbound : machine.bindings = [])
    (hbelow : value.toInt < limit.toInt) :
    ∃ trace, Completes (.scope [countOn]) (machine.counting held value rounds)
      trace (.ok .next, machine.counting held (value + 1) (rounds + 1)) := by
  let inside := (machine.counting held value rounds).enterBlock
  have hcounts : inside.Counts value := (counts_counting hunbound).enterBlock
  have hassign := hcounts.assign_eq hbelow
  let changed : Machine :=
    { inside with store := inside.store.setValue "i" (.int (value + 1)) }
  have hperformed :
      inside.performed countOn .assign = (.ok .next, changed) := by
    simp only [performed, perform, hassign, commit]
    rfl
  have hstatement : Completes (.statement countOn) inside [⟨countOn, inside⟩]
      (.ok .next, changed) := hperformed ▸ .simple rfl rfl
  have hbody : Completes (.scope [countOn]) (machine.counting held value rounds)
      _ (.ok .next, changed.exitBlock) := .scope (.next hstatement .nil)
  have hexit : changed.exitBlock =
      machine.counting held (value + 1) (rounds + 1) :=
    congrArg (fun store => { machine with store }) (exit_setValue (value + 1))
  exact ⟨_, hexit ▸ hbody⟩

/-- From any value on, the loop takes as many rounds as the limit is away. -/
theorem completes_loop (hunbound : machine.bindings = []) (held : Value)
    (value limit : Int64) (rounds : Nat) :
    ∃ trace, Completes (.block (countingLoop limit))
      (machine.counting held value rounds) trace
      (.ok .next, machine.counting held (max value limit)
        (rounds + (limit.toInt - value.toInt).toNat)) := by
  induction hdistance : (limit.toInt - value.toInt).toNat
    generalizing value rounds with
  | zero =>
      have hends : ¬ value.toInt < limit.toInt := by omega
      have hcondition : (machine.counting held value rounds).blockCondition
          (countingLoop limit) = .ok false := by
        rw [(counts_counting hunbound).blockCondition_eq, decide_eq_false hends]
      rw [max_of_ge (Int.not_lt.mp hends)]
      exact ⟨_, .skipped hcondition⟩
  | succ distance ih =>
      have hbelow : value.toInt < limit.toInt := by omega
      have hnext := toInt_next hbelow
      have hcondition : (machine.counting held value rounds).blockCondition
          (countingLoop limit) = .ok true := by
        rw [(counts_counting hunbound).blockCondition_eq, decide_eq_true hbelow]
      obtain ⟨inside, hround⟩ := completes_round hunbound hbelow
      obtain ⟨rest, hrest⟩ := ih (value + 1) (rounds + 1) (by omega)
      have hmax : max (value + 1) limit = max value limit := by
        rw [max_of_le (by omega), max_of_le (by omega)]
      rw [hmax, Nat.add_right_comm, Nat.add_assoc] at hrest
      exact ⟨_, .again hcondition rfl hround hrest⟩

/-- The whole program, from a machine without variables. -/
theorem completes_program (hunbound : machine.bindings = [])
    (hempty : machine.store = {}) (arguments : Arguments)
    (start limit : Int64) :
    ∃ trace, Completes (.statements [startCounting start, countingLoop limit])
      (machine.declareArguments arguments) trace
      (.ok .next, machine.counting (argumentValues arguments)
        (max start limit) (limit.toInt - start.toInt).toNat) := by
  let started := machine.declareArguments arguments
  have hstore : started.store =
      { innermost :=
          [(Word.arguments, ⟨argumentValues arguments, true⟩)] } := by
    simp only [started, declareArguments, hempty]
    rfl
  have hreads : started.ReadsNumbers := by
    refine ⟨hunbound, fun number => ?_⟩
    have harguments : (integerText number == Word.arguments) = false :=
      beq_false_of_ne (integerText_ne rfl number)
    simp [hstore, Store.get?, Store.frames, Frame.get?, List.lookup_cons,
      harguments]
  have hfree : started.store.contains "i" = false := by
    rw [hstore]
    rfl
  have hdeclare := hreads.declare_eq hfree start
  have hdeclared : started.performed (startCounting start) .declare =
      (.ok .next, machine.counting (argumentValues arguments) start 0) := by
    simp only [performed, perform, hdeclare, commit, hstore]
    rfl
  have hfirst : Completes (.statement (startCounting start)) started
      [⟨startCounting start, started⟩]
      (.ok .next, machine.counting (argumentValues arguments) start 0) :=
    hdeclared ▸ .simple rfl rfl
  obtain ⟨trace, hloop⟩ :=
    completes_loop hunbound (argumentValues arguments) start limit 0
  rw [Nat.zero_add] at hloop
  exact ⟨_, .next hfirst (.next (.block rfl hloop) .nil)⟩

end Rounds

/-- A program that counts a variable up to a limit parses and ends, whatever the
two integers are.  The variable then holds the greater one, nothing else is
left, and the body was entered once for each integer between. -/
theorem counting_loop_reaches_limit (start limit : Int64)
    (arguments : List String) (callLimit : Nat) (input : InputStream)
    {output : OutputStream} (hflush : output.flush = .ok ()) :
    ∃ program after,
      parseSource (countingSource start limit) arguments = .ok program ∧
      (∃ budget, ∀ more, budget ≤ more →
        execute more program (fresh #[] callLimit input output) =
          some (.ok .next, after)) ∧
      after.store.depth = 0 ∧
      after.store.snapshot =
        [(Word.arguments, ⟨argumentValues (.ofList arguments), true⟩),
          ("i", ⟨.int (max start limit), false⟩)] ∧
      after.store.log = Array.replicate (limit.toInt - start.toInt).toNat
        (.entering 1) := by
  let machine := fresh #[] callLimit input output
  let held := argumentValues (.ofList arguments)
  have hunbound : machine.bindings = [] := rfl
  obtain ⟨trace, hruns⟩ :=
    completes_program hunbound rfl (.ofList arguments) start limit
  have hrunsTo := runsTo_iff_exists_completes.mpr ⟨trace, hruns⟩
  let program : Program :=
    ⟨[startCounting start, countingLoop limit], .ofList arguments⟩
  have hexecutes : Executes program machine _ :=
    (executes_iff_runsTo hflush).mpr hrunsTo
  obtain ⟨budget, hrun⟩ := hexecutes
  refine ⟨program, _, parseSource_countingSource start limit arguments,
    ⟨budget, fun more hmore => execute_mono hmore hrun⟩, rfl, rfl, rfl⟩

/-- Two rounds below the greatest integer the loop counts up to it. -/
theorem counting_loop_reaches_greatest :
    ∃ program after,
      parseSource (countingSource 9223372036854775805 9223372036854775807) [] =
        .ok program ∧
      (∃ budget, ∀ more, budget ≤ more →
        execute more program (fresh #[] defaultCallLimit {} {}) =
          some (.ok .next, after)) ∧
      after.store.snapshot =
        [(Word.arguments, ⟨.array [], true⟩),
          ("i", ⟨.int 9223372036854775807, false⟩)] ∧
      after.store.log = #[.entering 1, .entering 1] := by
  have hflush : ({} : OutputStream).flush = .ok () := rfl
  obtain ⟨program, after, hparse, hruns, _, hsnapshot, hlog⟩ :=
    counting_loop_reaches_limit 9223372036854775805 9223372036854775807 []
      defaultCallLimit {} hflush
  have hvalue : max (9223372036854775805 : Int64) 9223372036854775807 =
      9223372036854775807 := by decide
  have hrounds : ((9223372036854775807 : Int64).toInt -
      (9223372036854775805 : Int64).toInt).toNat = 2 := by decide
  rw [hvalue] at hsnapshot
  rw [hrounds] at hlog
  exact ⟨program, after, hparse, hruns, hsnapshot, hlog⟩

end Machine

end LineScript
