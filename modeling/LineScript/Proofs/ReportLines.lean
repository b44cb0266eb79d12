/-
The report on a program.  Tokens are cut at blanks, so no break stands in a parsed
program, and arguments without line feeds bring none into the store.  So each line
of the report is all that the report says about one variable, and the report has
as many lines as there are variables, in the order of their names.
-/
import LineScript.Proofs.CodeInvariants
import LineScript.Proofs.LineGrammar
import LineScript.Proofs.ParseRelation
import LineScript.Proofs.SoundSessions
import LineScript.Proofs.StoreCharacters

namespace LineScript

/-- What the report line of a variable says behind its name. -/
def reportDetails (name : String) : Value → String
  | .array elements =>
    "Value: " ++ name ++ "\tType: " ++ Kind.array.label ++
      "\tArray Elements: " ++ Value.reportText (.array elements)
  | value => "Value: " ++ value.render ++ "\tType: " ++ value.kind.label

/-- The report line of a variable without its end. -/
def reportedLine (name : String) (value : Value) : String :=
  "Name: " ++ name ++ "\t" ++ reportDetails name value

theorem reportLine_eq (name : String) (value : Value) :
    reportLine name value = reportedLine name value ++ "\n" := by
  have htab (rest : String) :
      "\t" ++ ("Value: " ++ rest) = "\tValue: " ++ rest := by
    rw [← String.append_assoc]
    rfl
  unfold reportLine reportedLine reportDetails
  cases value <;> simp only [toString, String.append_assoc, htab]

theorem lineFeed_isBreak : IsBreak '\n' := by
  decide

theorem Kind.unbroken_label (kind : Kind) : Unbroken kind.label.toList := by
  cases kind <;> decide

theorem lineFeed_notMem_reportedLine {name : String} {value : Value}
    (hname : '\n' ∉ name.toList) (hvalue : value.Lacks '\n') :
    '\n' ∉ (reportedLine name value).toList := by
  have hlabel := value.kind.unbroken_label.not_mem lineFeed_isBreak
  have hrender := Value.notMem_render lineFeed_isBreak value hvalue
  have hreport := Value.notMem_reportText lineFeed_isBreak value hvalue
  unfold reportedLine reportDetails
  cases value <;> simp_all [Value.kind]

/-- Lines that all end with line feeds are the lines of the whole text. -/
theorem physicalLines_join {lines : List String}
    (hlines : ∀ line ∈ lines, '\n' ∉ line.toList) :
    physicalLines (String.join (lines.map (· ++ "\n"))) = lines ++ [""] := by
  induction lines with
  | nil => rfl
  | cons line later ih =>
      obtain ⟨hline, hlater⟩ := List.forall_mem_cons.mp hlines
      have hkept : ∀ c ∈ line.toList, (c == '\n') = false := by
        intro c hc
        simpa using ne_of_mem_of_not_mem hc hline
      have htext : (String.join ((line :: later).map (· ++ "\n"))).toList =
          line.toList ++ '\n' ::
            (String.join (later.map (· ++ "\n"))).toList := by simp
      rw [physicalLines, htext, pieces_append_cons hkept rfl, List.map_cons,
        String.ofList_toList, List.cons_append]
      exact congrArg (line :: ·) (ih hlater)

/-- A store without line feeds is reported with one line for each entry of the
listing. -/
theorem Store.Lacks.physicalLines_report {store : Store}
    (hstore : store.Lacks '\n') :
    physicalLines store.report =
      (store.snapshot.map fun entry =>
        reportedLine entry.1 entry.2.value) ++ [""] := by
  have hreport : store.report = String.join
      ((store.snapshot.map fun entry =>
        reportedLine entry.1 entry.2.value).map (· ++ "\n")) := by
    rw [report, List.map_map]
    congr 1
    apply List.map_congr_left
    exact fun entry _ => reportLine_eq entry.1 entry.2.value
  rw [hreport]
  apply physicalLines_join
  intro line hline
  obtain ⟨entry, hentry, rfl⟩ := List.mem_map.mp hline
  rw [snapshot_eq_arranged, (Frame.perm_arranged _).mem_iff] at hentry
  obtain ⟨hname, hvalue⟩ := hstore entry hentry
  exact lineFeed_notMem_reportedLine hname hvalue

section Parsed

variable {c : Char}

theorem notMem_of_mem_words (hblank : isBlank c = true) {text token : String}
    (htoken : token ∈ words text) : c ∉ token.toList := by
  intro hc
  rw [(isWord_of_mem_words htoken).2 c hc] at hblank
  contradiction

/-- The slots of a statement hold tokens of its line, or nothing. -/
theorem Statement.lacks_of_parseLine (hblank : isBlank c = true)
    {line : SourceLine} {statement : Statement}
    (hline : parseLine line = .ok statement) : statement.Lacks c := by
  obtain ⟨kind, expression, hkind, hslots, rfl⟩ := parseLine_eq_ok_iff.mp hline
  obtain ⟨operands, hshape, rfl⟩ := LineShape.of_accepted hkind hslots
  have htokens : ∀ token ∈ line.tokens, c ∉ token.toList :=
    fun _ => notMem_of_mem_words hblank
  refine ⟨htokens, ?_⟩
  intro token htoken
  rw [Expression.slots_ofTokens hshape.length_operands_le] at htoken
  rcases List.mem_append.mp htoken with hoperand | hempty
  · exact htokens token (hshape.sublist.subset hoperand)
  · obtain rfl := List.eq_of_mem_replicate hempty
    exact List.not_mem_nil

theorem Parses.lacks (hblank : isBlank c = true) {lines : List SourceLine}
    {statements : List Statement} (hparses : Parses lines statements) :
    Everywhere (Statement.Lacks c) statements := by
  induction hparses with
  | nil => exact .nil
  | blank _ _ ih => exact ih
  | plain _ hline _ _ ih =>
      have hlacks := Statement.lacks_of_parseLine hblank hline
      obtain ⟨_, _, _, _, rfl⟩ := parseLine_eq_ok_iff.mp hline
      exact .cons hlacks .nil ih
  | block _ hline _ _ _ _ ihBody ihRest =>
      have hlacks := Statement.lacks_of_parseLine hblank hline
      exact .cons ⟨hlacks.line, hlacks.expression⟩ ihBody ihRest

namespace Machine

theorem invariant_lacks (hbreak : IsBreak c) :
    Invariant (Statement.Lacks c) (Machine.Lacks c) where
  perform handler hstatement hmachine :=
    hmachine.perform hbreak hstatement handler
  enterBlock := Lacks.enterBlock
  exitBlock := Lacks.exitBlock
  enterCall parameters hstatement hmachine :=
    hmachine.enterCall hstatement.expression parameters
  exitCall := Lacks.exitCall

theorem Lacks.declareArguments (hbreak : IsBreak c) {machine : Machine}
    (hmachine : machine.Lacks c) {arguments : List String}
    (harguments : ∀ argument ∈ arguments, c ∉ argument.toList) :
    (machine.declareArguments (.ofList arguments)).Lacks c where
  store := by
    have hname : Unbroken Word.arguments.toList := by decide
    refine hmachine.store.declare (hname.not_mem hbreak) ?_
    rw [argumentValues, Value.lacks_array]
    intro element helement
    obtain ⟨token, htoken, rfl⟩ := List.mem_map.mp helement
    obtain ⟨place, rfl⟩ : ∃ place : Nat, arguments[place]?.getD "" = token := by
      have hslot := (List.mem_filter.mp htoken).1
      simp only [Arguments.ofList, Vector.toList_ofFn, List.mem_ofFn] at hslot
      obtain ⟨place, hplace⟩ := hslot
      exact ⟨place, hplace⟩
    apply Value.lacks_ofLiteral
    cases hargument : arguments[place]? with
    | none => exact List.not_mem_nil
    | some argument =>
        exact harguments argument (List.mem_of_getElem? hargument)
  bindings := hmachine.bindings

theorem fresh_ready (log : Array ScopeEvent) (callLimit : Nat)
    (input : InputStream) (output : OutputStream) :
    (fresh log callLimit input output).Ready (Statement.Lacks c)
      (Machine.Lacks c) :=
  ⟨nofun, ⟨nofun, nofun⟩⟩

end Machine

theorem fits_of_parseSource (hbreak : IsBreak c) {source : String}
    {arguments : List String} {program : Program}
    (hparse : parseSource source arguments = .ok program)
    (harguments : ∀ argument ∈ arguments, c ∉ argument.toList) :
    Machine.Fits (Statement.Lacks c) (Machine.Lacks c) program where
  code := (parses_of_parseProgram hparse).lacks hbreak.1
  arguments := by
    intro machine hmachine
    rw [arguments_of_parseProgram hparse]
    exact hmachine.declareArguments hbreak harguments

end Parsed

/-- A line of a report on the variable with a name. -/
def IsLineOf (name line : String) : Prop :=
  ∃ details, line = "Name: " ++ name ++ "\t" ++ details

/-- A report consists of one line for each variable, in the order of the
names. -/
structure Store.ReportedIn (store : Store) (names lines : List String) :
    Prop where
  text : physicalLines store.report = lines ++ [""]
  count : lines.length = store.size
  sorted : names.Pairwise (· < ·)
  complete : ∀ name, name ∈ names ↔ store.contains name = true
  each : List.Forall₂ IsLineOf names lines

/-- The listing has the names of all variables, and has each once if no two frames
have a name in common. -/
theorem Store.Sound.exists_reportedIn {store : Store} (hsound : store.Sound)
    (hstore : store.Lacks '\n') :
    ∃ names lines, store.ReportedIn names lines := by
  refine ⟨store.snapshot.map Prod.fst, _, hstore.physicalLines_report, ?_,
    Frame.sorted_arranged hsound.distinct, ?_, ?_⟩
  · rw [List.length_map]
    exact (Frame.perm_arranged store.entries).length_eq
  · intro name
    simp only [List.mem_map, contains, Option.isSome_iff_exists,
      hsound.get?_eq_some_iff]
    constructor
    · rintro ⟨entry, hentry, rfl⟩
      exact ⟨entry.2, hentry⟩
    · rintro ⟨held, hentry⟩
      exact ⟨(name, held), hentry, rfl⟩
  · rw [List.forall₂_map_left_iff, List.forall₂_map_right_iff, List.forall₂_same]
    exact fun entry _ => ⟨reportDetails entry.1 entry.2.value, rfl⟩

namespace Machine

/-- After a parsed program, whatever it reads and however it ends, the report has
one line for each variable, which starts with its name, in the order of the names.
On no machine of the run a text in the store has a line feed, at whatever depth of
the arrays. -/
theorem report_has_line_per_variable {source : String} {arguments : List String}
    {program : Program} (hparse : parseSource source arguments = .ok program)
    (harguments : ∀ argument ∈ arguments, '\n' ∉ argument.toList)
    {log : Array ScopeEvent} {callLimit : Nat} {input : InputStream}
    {output : OutputStream} {budget : Nat} {outcome : Outcome}
    (hrun : execute budget program (fresh log callLimit input output) =
      some outcome) :
    (∃ names lines, outcome.2.store.ReportedIn names lines) ∧
    ∀ point, SessionReaches [program] (fresh log callLimit input output) point →
      ∀ entry ∈ point.store.snapshot, ∀ text ∈ entry.2.value.texts,
        '\n' ∉ text.toList := by
  have hfits : ∀ other ∈ [program],
      Fits (Statement.Lacks '\n') (Machine.Lacks '\n') other :=
    List.forall_mem_singleton.mpr
      (fits_of_parseSource lineFeed_isBreak hparse harguments)
  have hlacks : ∀ point,
      SessionReaches [program] (fresh log callLimit input output) point →
      point.store.Lacks '\n' := by
    intro point hreaches
    have hready := hreaches.ready (invariant_lacks lineFeed_isBreak) hfits
      (fresh_ready log callLimit input output)
    exact hready.keeps.store
  constructor
  · have hended : SessionReaches [program] (fresh log callLimit input output)
        outcome.2 := .ended hrun
    have hsound : outcome.2.store.Sound :=
      sessions_have_sound_stores.2 _ _ _ _ _ _ hended
    exact hsound.exists_reportedIn (hlacks _ hended)
  · intro point hreaches entry hentry
    rw [Store.snapshot_eq_arranged, (Frame.perm_arranged _).mem_iff] at hentry
    exact (hlacks point hreaches entry hentry).2

/-- A program that puts its arguments into an array, and joins the text of that
array to another text. -/
def joinedArray : String :=
  "var[] b = [ $ARGS yes ]\nvar a = 'x' + b"

/-- The parsed program. -/
def joinedArrayProgram (arguments : List String) : Program where
  statements :=
    [{ kind := .arrayDeclare, lineNo := 1
       line := ["var[]", "b", "=", "[", "$ARGS", "yes", "]"]
       expression := { left := "$ARGS", middle := "yes" } },
      { kind := .declare, line := ["var", "a", "=", "'x'", "+", "b"]
        lineNo := 2
        expression := { left := "'x'", middle := "+", right := "b" } }]
  arguments := .ofList arguments

theorem parseSource_joinedArray (arguments : List String) :
    parseSource joinedArray arguments = .ok (joinedArrayProgram arguments) := by
  have hlines : sourceLines joinedArray =
      [⟨1, "var[] b = [ $ARGS yes ]"⟩, ⟨2, "var a = 'x' + b"⟩] := by
    decide +kernel
  have hparses : Parses (sourceLines joinedArray)
      (joinedArrayProgram arguments).statements := by
    rw [hlines]
    exact .plain (by decide +kernel)
      (parseLine_eq_ok_iff.mpr ⟨.arrayDeclare, _, rfl, rfl, rfl⟩) rfl
      (.plain (by decide +kernel)
        (parseLine_eq_ok_iff.mpr ⟨.declare, _, rfl, rfl, rfl⟩) rfl .nil)
  rw [parseSource, parseProgram, parseStatements_eq_ok_iff.mpr hparses]
  rfl

theorem joinedArray_has_three_lines :
    ∃ outcome,
      execute 4 (joinedArrayProgram ["hi"])
        (fresh #[] defaultCallLimit {} {}) = some outcome ∧
      outcome.2.store.value? "a" = some (.text "x[[hi] yes]") ∧
      ∃ names lines, outcome.2.store.ReportedIn names lines ∧
        lines.length = 3 ∧ "a" ∈ names := by
  obtain ⟨outcome, hrun, hsize, hvalue⟩ : ∃ outcome,
      execute 4 (joinedArrayProgram ["hi"])
        (fresh #[] defaultCallLimit {} {}) = some outcome ∧
      outcome.2.store.size = 3 ∧
      outcome.2.store.value? "a" = some (.text "x[[hi] yes]") :=
    ⟨_, rfl, rfl, rfl⟩
  obtain ⟨⟨names, lines, hreported⟩, _⟩ :=
    report_has_line_per_variable (parseSource_joinedArray ["hi"]) (by decide)
      hrun
  have hcontains : outcome.2.store.contains "a" = true := by
    obtain ⟨held, hheld, _⟩ := Option.map_eq_some_iff.mp hvalue
    rw [Store.contains, hheld]
    rfl
  exact ⟨outcome, hrun, hvalue, names, lines, hreported,
    hreported.count.trans hsize, (hreported.complete "a").mpr hcontains⟩

end Machine

end LineScript
