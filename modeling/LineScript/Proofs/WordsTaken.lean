/-
The input as one stream of words.  Only a read statement takes words, one for each
target that it comes to, so the words that a run or a whole session takes are the
words of its input from the first on, whatever statements, calls and programs lie
between.  Two inputs with the same words cannot be told apart.
-/
import LineScript.Proofs.ConstantVariables
import LineScript.Proofs.InputWords
import LineScript.Proofs.PairedRuns

namespace LineScript

namespace InputStream

/-- Taking words one after another comes to these results, and leaves this
input. -/
def Gives (input : InputStream) (results : List (Except Fault (Option String)))
    (behind : InputStream) : Prop :=
  input.takeWords results.length = (results, behind)

namespace Gives

variable {input behind : InputStream}
  {results : List (Except Fault (Option String))}

theorem nil (input : InputStream) : input.Gives [] input :=
  rfl

theorem cons (hgives : input.nextWord.2.Gives results behind) :
    input.Gives (input.nextWord.1 :: results) behind := by
  unfold Gives at hgives ⊢
  rw [List.length_cons, takeWords]
  simp only [hgives]

theorem append {last : InputStream}
    {later : List (Except Fault (Option String))}
    (hfirst : input.Gives results behind) (hlater : behind.Gives later last) :
    input.Gives (results ++ later) last := by
  unfold Gives at hfirst hlater ⊢
  rw [List.length_append, takeWords_add, hfirst, hlater]

/-- From an input that can be read, the results are its words in order. -/
theorem eq_words (hgives : input.Gives results behind)
    (hreadable : input.Readable) :
    results = (List.range results.length).map
        (fun place => .ok input.remaining[place]?) ∧
      behind.remaining = input.remaining.drop results.length := by
  obtain ⟨hwords, hremaining, _⟩ :=
    takeWords_of_readable results.length hreadable
  rw [hgives] at hwords hremaining
  exact ⟨hwords, hremaining⟩

end Gives

theorem interchangeable_sameWords : Interchangeable SameWords where
  word halike := by
    rw [nextWord_fst halike.readableLeft, nextWord_fst halike.readableRight,
      halike.remaining_eq]
  rest halike := by
    refine ⟨halike.readableLeft.nextWord, halike.readableRight.nextWord, ?_⟩
    rw [remaining_nextWord halike.readableLeft,
      remaining_nextWord halike.readableRight, halike.remaining_eq]

theorem sameWords_ofText {left right : String}
    (hwords : words left = words right) :
    SameWords (ofText left) (ofText right) := by
  refine ⟨readable_ofText left, readable_ofText right, ?_⟩
  rw [remaining_ofText, remaining_ofText, hwords]

end InputStream

namespace Machine

/-- Reading a target takes a word if the variable is there and the output can be
flushed. -/
def takesWord (machine : Machine) (token : String) : Bool :=
  machine.store.contains (machine.substitute token) &&
    machine.output.flush.toBool

/-- What reading some targets gets from the input: one result for each target
that takes a word, up to the first that fails. -/
def wordsRead (machine : Machine) (kind : StatementKind) :
    List String → List (Except Fault (Option String))
  | [] => []
  | token :: later =>
    if machine.takesWord token then
      machine.input.nextWord.1 ::
        match machine.readInto kind token with
        | (.ok (), after) => wordsRead after kind later
        | _ => []
    else []

/-- What a handler gets from the input while it works. -/
def Activation.wordsRead (activation : Activation) :
    List (Except Fault (Option String)) :=
  if activation.statement.kind = .readInt ∨
      activation.statement.kind = .readFloat then
    activation.machine.wordsRead activation.statement.kind
      activation.statement.operands
  else []

theorem readInto_of_takesWord {machine : Machine} {token : String}
    (htakes : machine.takesWord token = true) (kind : StatementKind) :
    (machine.readInto kind token).2.input = machine.input.nextWord.2 := by
  rw [takesWord, Bool.and_eq_true] at htakes
  obtain ⟨hname, hflush⟩ := htakes
  simp only [readInto, hname, Bool.not_true, Bool.false_eq_true, if_false]
  cases hflushed : machine.output.flush with
  | error fault => simp [hflushed, Except.toBool] at hflush
  | ok _ =>
      simp only
      split
      · rfl
      · rfl
      · split
        · rfl
        · rfl

theorem readInto_of_not_takesWord {machine : Machine} {token : String}
    (htakes : machine.takesWord token = false) (kind : StatementKind) :
    ∃ fault, machine.readInto kind token = (.error fault, machine) := by
  rw [takesWord, Bool.and_eq_false_iff] at htakes
  simp only [readInto]
  split
  · exact ⟨_, rfl⟩
  · next hname =>
    cases hflushed : machine.output.flush with
    | error fault => exact ⟨fault, rfl⟩
    | ok _ => simp_all [Except.toBool]

theorem gives_readAll (machine : Machine) (kind : StatementKind)
    (tokens : List String) :
    machine.input.Gives (machine.wordsRead kind tokens)
      (machine.readAll kind tokens).2.input := by
  induction tokens generalizing machine with
  | nil => exact .nil machine.input
  | cons token later ih =>
      unfold wordsRead readAll
      cases htakes : machine.takesWord token with
      | false =>
          -- A target that takes no word fails, so no later one is read.
          obtain ⟨fault, hread⟩ := readInto_of_not_takesWord htakes kind
          rw [hread]
          exact .nil machine.input
      | true =>
          have hinput := readInto_of_takesWord htakes kind
          rw [if_pos rfl]
          apply InputStream.Gives.cons
          rw [← hinput]
          rcases machine.readInto kind token with ⟨_ | _, after⟩
          · exact .nil after.input
          · exact ih after

theorem input_perform (machine : Machine) (statement : Statement)
    {handler : Handler} (hhandler : handler ≠ .read) :
    (machine.perform statement handler).2.input = machine.input := by
  by_cases hprint : handler = .print
  · subst hprint
    rfl
  · exact (streams_perform machine statement hprint hhandler).1

theorem wordsRead_eq_nil {statement : Statement} {handler : Option Handler}
    (hhandler : statement.kind.handler? = handler)
    (hread : handler ≠ some .read) (machine : Machine) :
    Activation.wordsRead ⟨statement, machine⟩ = [] := by
  subst hhandler
  apply if_neg
  rintro (hkind | hkind)
  · exact hread (congrArg StatementKind.handler? hkind)
  · exact hread (congrArg StatementKind.handler? hkind)

/-- The step of one handler: it takes from the input what its activation says,
and nothing else. -/
theorem gives_perform (machine : Machine) {statement : Statement}
    {handler : Handler} (hhandler : statement.kind.handler? = some handler) :
    machine.input.Gives (Activation.wordsRead ⟨statement, machine⟩)
      (machine.perform statement handler).2.input := by
  by_cases hread : handler = .read
  · subst hread
    simp only [Activation.wordsRead, perform, read]
    split
    · exact gives_readAll machine _ _
    · exact .nil machine.input
  · rw [wordsRead_eq_nil hhandler (by simpa using hread),
      input_perform machine statement hread]
    exact .nil machine.input

/-- A run takes from the input what its activations say, in their order. -/
theorem Completes.gives {task : Task} {machine : Machine}
    {trace : List Activation} {outcome : Outcome}
    (hcompletes : Completes task machine trace outcome)
    (htask : task.Dispatched) :
    machine.input.Gives (trace.flatMap Activation.wordsRead)
      outcome.2.input := by
  induction hcompletes with
  | nil => exact .nil _
  | next _ _ ihFirst ihRest =>
      rw [List.flatMap_append]
      exact (ihFirst trivial).append (ihRest trivial)
  | stop _ _ ih | scope _ ih => exact ih trivial
  | halt hhandler =>
      rw [List.flatMap_singleton, wordsRead_eq_nil hhandler nofun]
      exact .nil _
  | leave hhandler =>
      rw [List.flatMap_singleton, wordsRead_eq_nil hhandler nofun]
      exact .nil _
  | simple hhandler _ =>
      rw [List.flatMap_singleton, performed_snd]
      exact gives_perform _ hhandler
  | block hhandler _ ih => exact ih hhandler
  | call hhandler _ ih => exact ih hhandler
  | undecided _ | skipped _ | refused _ =>
      rw [List.flatMap_singleton, wordsRead_eq_nil htask nofun]
      exact .nil _
  | again _ _ _ _ ihBody ihRest =>
      rw [List.flatMap_cons, wordsRead_eq_nil htask nofun, List.nil_append,
        List.flatMap_append]
      exact (ihBody trivial).append (ihRest htask)
  | once _ _ _ ih | called _ _ ih =>
      rw [List.flatMap_cons, wordsRead_eq_nil htask nofun, List.nil_append]
      exact ih trivial

/-- A session whose programs all come to an end, with the activations of all of
them.  A program that fails does not end the session. -/
inductive SessionCompletes :
    List Program → Machine → List Activation → Machine → Prop
  | nil {machine : Machine} : SessionCompletes [] machine [] machine
  | next {budget : Nat} {program : Program} {later : List Program}
      {machine last : Machine} {first rest : List Activation}
      {ended outcome : Outcome} :
    execute budget program machine = some outcome →
      Completes (.statements program.statements)
        (machine.declareArguments program.arguments) first ended →
      flushed ended = outcome →
      SessionCompletes later outcome.2 rest last →
      SessionCompletes (program :: later) machine (first ++ rest) last

theorem SessionCompletes.gives {programs : List Program}
    {machine last : Machine} {trace : List Activation}
    (hsession : SessionCompletes programs machine trace last) :
    machine.input.Gives (trace.flatMap Activation.wordsRead) last.input := by
  induction hsession with
  | nil => exact .nil _
  | next _ hcompletes hflushed _ ih =>
      have hfirst := hcompletes.gives trivial
      rw [← flushed_snd, hflushed] at hfirst
      rw [List.flatMap_append]
      exact hfirst.append ih

section Points

/-- The input is what another input is after some of its words. -/
def TakenFrom (start : InputStream) (machine : Machine) : Prop :=
  ∃ count, machine.input = (start.takeWords count).2

theorem TakenFrom.trans {start : InputStream} {before after : Machine}
    (hbefore : TakenFrom start before)
    (hafter : TakenFrom before.input after) : TakenFrom start after := by
  obtain ⟨first, hfirst⟩ := hbefore
  obtain ⟨second, hsecond⟩ := hafter
  refine ⟨first + second, ?_⟩
  rw [InputStream.takeWords_add, ← hfirst]
  exact hsecond

theorem respected_takenFrom :
    Respected fun before after => TakenFrom before.input after where
  refl _ := ⟨0, rfl⟩
  trans hfirst hsecond := hfirst.trans hsecond
  perform machine statement handler := by
    by_cases hread : handler = .read
    · subst hread
      simp only [perform, read]
      split
      · have hgives := gives_readAll machine statement.kind statement.operands
        exact ⟨_, (congrArg Prod.snd hgives).symm⟩
      · exact ⟨0, rfl⟩
    · exact ⟨0, input_perform machine statement hread⟩
  scope hbody := hbody
  call hbody := hbody

theorem persists_takenFrom (start : InputStream) :
    Persists (fun before after => TakenFrom before.input after)
      (TakenFrom start) where
  kept hafter hbefore := hbefore.trans hafter
  block hheld := hheld
  call hheld := hheld

theorem declareArguments_takenFrom (machine : Machine)
    (arguments : Arguments) :
    TakenFrom machine.input (machine.declareArguments arguments) :=
  ⟨0, rfl⟩

/-- On all machines of a session, finished or not, the input is that of the
start without some first words. -/
theorem SessionReaches.takenFrom {programs : List Program}
    {machine point : Machine}
    (hreaches : SessionReaches programs machine point) :
    TakenFrom machine.input point :=
  hreaches.holds respected_takenFrom declareArguments_takenFrom
    (persists_takenFrom machine.input) ⟨0, rfl⟩

end Points

/-- An input with the same words does not change what a program comes to. -/
theorem execute_of_sameWords {budget : Nat} {program : Program}
    {machine : Machine} {outcome : Outcome} {input : InputStream}
    (hrun : execute budget program machine = some outcome)
    (hwords : InputStream.SameWords machine.input input) :
    ∃ more rest,
      execute more program { machine with input } =
        some (outcome.1, { outcome.2 with input := rest }) ∧
      InputStream.SameWords outcome.2.input rest := by
  rcases execute_beside InputStream.interchangeable_sameWords hrun
    (Nat.le_refl _) hwords with
    ⟨_, _, _, hlower, _⟩ | ⟨more, rest, hrest, hmore⟩
  · exact absurd hlower (Nat.lt_irrefl _)
  · have hlimit : outcome.2.beside machine.callLimit rest =
        { outcome.2 with input := rest } := by
      rw [beside, ← (execute_resumes hrun).callLimit]
    rw [hlimit] at hmore
    exact ⟨more, rest, hmore, hrest⟩

/-- An input is one stream of words.  Bytes that encode a text are read as that
text, and its words can be taken one after another.  In a session on a text,
however many programs, calls and failures there are, what the reads get is the
words of the text in order, and none after the last; and everywhere in it the
next word is the first that was not taken.  So two texts with the same words, in
whatever lines, lead a program to the same result, output and store. -/
theorem input_is_one_stream_of_words :
    (∀ bytes text, String.fromUTF8? bytes = some text →
      InputStream.ofBytes bytes = .ofText text) ∧
    (∀ text count, ((InputStream.ofText text).takeWords count).1 =
      (List.range count).map fun place => .ok (words text)[place]?) ∧
    (∀ text programs machine, machine.input = .ofText text →
      (∀ trace last, SessionCompletes programs machine trace last →
        ∃ count, trace.flatMap Activation.wordsRead =
            (List.range count).map (fun place => .ok (words text)[place]?) ∧
          last.input.remaining = (words text).drop count) ∧
      ∀ point, SessionReaches programs machine point →
        ∃ count, point.input = (machine.input.takeWords count).2 ∧
          point.input.nextWord.1 = .ok (words text)[count]?) ∧
    (∀ left right, words left = words right →
      ∀ program (machine : Machine) budget outcome,
        execute budget program { machine with input := .ofText left } =
          some outcome →
        ∃ more rest,
          execute more program { machine with input := .ofText right } =
            some (outcome.1, { outcome.2 with input := rest }) ∧
          InputStream.SameWords outcome.2.input rest) := by
  refine ⟨fun _ _ => InputStream.ofBytes_eq_ofText, ?_, ?_, ?_⟩
  · intro text count
    have hreadable := InputStream.readable_ofText text
    rw [(InputStream.takeWords_of_readable count hreadable).1,
      InputStream.remaining_ofText]
  · intro text programs machine hinput
    have hreadable : machine.input.Readable :=
      hinput ▸ InputStream.readable_ofText text
    have hremaining : machine.input.remaining = words text :=
      hinput ▸ InputStream.remaining_ofText text
    refine ⟨fun trace last hsession => ?_, fun point hreaches => ?_⟩
    · have hwords := hsession.gives.eq_words hreadable
      rw [hremaining] at hwords
      exact ⟨_, hwords⟩
    · obtain ⟨count, hpoint⟩ := hreaches.takenFrom
      obtain ⟨_, hdropped, hbehind⟩ :=
        InputStream.takeWords_of_readable count hreadable
      rw [← hpoint] at hdropped hbehind
      refine ⟨count, hpoint, ?_⟩
      rw [InputStream.nextWord_fst hbehind, hdropped, hremaining,
        List.head?_drop]
  · intro left right hwords program machine budget outcome hrun
    have hsame := InputStream.sameWords_ofText hwords
    have hother := execute_of_sameWords hrun hsame
    exact hother

/-- A program that declares a number and reads it. -/
def readsNumber (name : String) : Program where
  statements :=
    [{ kind := .declare, line := ["var", name, "=", "0"], lineNo := 1
       expression := { left := "0" } },
      { kind := .readInt, line := ["readint", name], lineNo := 2
        expression := { left := name } }]
  arguments := .ofList []

/-- A text with blank lines, and another one with the same words in one line. -/
def scattered : String := "\n 7\t\n\n-8 end"

def inOneLine : String := "7 -8 end"

/-- A machine after the first number of the scattered text. -/
def afterSeven : Machine where
  store :=
    { innermost := [(Word.arguments, ⟨.array [], true⟩),
        ("a", ⟨.int 7, false⟩)] }
  input := { lines := [some "", some "-8 end"] }

/-- The same machine after the second number, with the last word ready. -/
def afterMinusEight : Machine where
  store :=
    { innermost := [(Word.arguments, ⟨.array [], true⟩),
        ("a", ⟨.int 7, false⟩), ("b", ⟨.int (-8), false⟩)] }
  input := { pending := ["end"] }

theorem readsNumber_takes_words :
    String.fromUTF8? scattered.toByteArray = some scattered ∧
    InputStream.ofBytes scattered.toByteArray = .ofText scattered ∧
    (∃ trace, SessionCompletes [readsNumber "a", readsNumber "b"]
        { input := .ofText scattered } trace afterMinusEight ∧
      ∃ count, trace.flatMap Activation.wordsRead =
          (List.range count).map (fun place =>
            .ok (words scattered)[place]?) ∧
        ["end"] = (words scattered).drop count) ∧
    (SessionReaches [readsNumber "a", readsNumber "b"]
        { input := .ofText scattered } afterSeven ∧
      ∃ count, afterSeven.input.nextWord.1 =
        .ok (words scattered)[(count : Nat)]?) ∧
    words scattered = words inOneLine ∧
    ∃ more rest,
      execute more (readsNumber "a") { input := .ofText inOneLine } =
        some (.ok .next, { afterSeven with input := rest }) := by
  obtain ⟨hbytes, _, hsessions, hpairs⟩ := input_is_one_stream_of_words
  have hdecode : String.fromUTF8? scattered.toByteArray = some scattered :=
    fromUTF8?_eq_some_iff.mpr rfl
  have hwords : words scattered = words inOneLine := rfl
  have hfirst : execute 5 (readsNumber "a") { input := .ofText scattered } =
      some (.ok .next, afterSeven) := rfl
  have hsecond : execute 5 (readsNumber "b") afterSeven =
      some (.ok .next, afterMinusEight) := rfl
  obtain ⟨first, _, hfirstTrace, hfirstEnd⟩ :=
    exists_execute_iff.mp ⟨5, hfirst⟩
  obtain ⟨second, _, hsecondTrace, hsecondEnd⟩ :=
    exists_execute_iff.mp ⟨5, hsecond⟩
  have hsession : SessionCompletes [readsNumber "a", readsNumber "b"]
      { input := .ofText scattered } (first ++ (second ++ []))
      afterMinusEight :=
    .next hfirst hfirstTrace hfirstEnd
      (.next hsecond hsecondTrace hsecondEnd .nil)
  have hreaches : SessionReaches [readsNumber "a", readsNumber "b"]
      { input := .ofText scattered } afterSeven := .ended hfirst
  obtain ⟨hends, hpoints⟩ := hsessions scattered
    [readsNumber "a", readsNumber "b"] { input := .ofText scattered } rfl
  obtain ⟨count, _, hpoint⟩ := hpoints _ hreaches
  obtain ⟨more, rest, hmore, _⟩ := hpairs _ _ hwords _ {} _ _ hfirst
  exact ⟨hdecode, hbytes _ _ hdecode, ⟨_, hsession, hends _ _ hsession⟩,
    ⟨hreaches, count, hpoint⟩, hwords, more, rest, hmore⟩

end Machine

end LineScript
