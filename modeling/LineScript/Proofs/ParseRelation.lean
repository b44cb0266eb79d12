/-
Parsing as a relation between lines and statements.  The relation has one rule
for each thing that can stand at the head of the lines: nothing, a blank line, a
statement without a body, and a statement whose body reaches to the closing
line.  It holds exactly where the parser succeeds, so what is said about parsed
programs is said by induction on the rules.  A second relation does the same for
the errors of the parser, with one rule for each place where it can give up.
-/
import LineScript.ProgramText
import LineScript.Proofs.FallibleSteps

namespace LineScript

section Split

variable {line : SourceLine} {nested : Nat} {later : List SourceLine}

theorem splitBody_plain (hopen : line.lastToken? ≠ some Word.blockOpen)
    (hclose : line.lastToken? ≠ some Word.blockClose) :
    splitBody nested (line :: later) =
      (splitBody nested later).map fun split => (line :: split.1, split.2) := by
  conv =>
    lhs
    unfold splitBody
  rw [if_neg hclose, if_neg hopen]

theorem splitBody_opening (hopen : line.lastToken? = some Word.blockOpen) :
    splitBody nested (line :: later) =
      (splitBody (nested + 1) later).map fun split =>
        (line :: split.1, split.2) := by
  have hclose : line.lastToken? ≠ some Word.blockClose := by
    rw [hopen]
    decide
  conv =>
    lhs
    unfold splitBody
  rw [if_neg hclose, if_pos hopen]

theorem splitBody_closing (hclose : line.lastToken? = some Word.blockClose) :
    splitBody (nested + 1) (line :: later) =
      (splitBody nested later).map fun split => (line :: split.1, split.2) := by
  conv =>
    lhs
    unfold splitBody
  rw [if_pos hclose]

theorem splitBody_end (hclose : line.lastToken? = some Word.blockClose) :
    splitBody 0 (line :: later) = some ([], later) := by
  unfold splitBody
  rw [if_pos hclose]

end Split

/-- The body, the closing line and what stands behind it make up the lines that
were split. -/
theorem eq_append_of_splitBody {nested : Nat}
    {lines body after : List SourceLine}
    (hsplit : splitBody nested lines = some (body, after)) :
    ∃ closing, closing.lastToken? = some Word.blockClose ∧
      lines = body ++ closing :: after := by
  induction lines generalizing nested body with
  | nil => simp [splitBody] at hsplit
  | cons line later ih =>
      -- Every line but the closing one belongs to the body.
      have inner {depth : Nat}
          (hmap : (splitBody depth later).map
            (fun split => (line :: split.1, split.2)) = some (body, after)) :
          ∃ closing, closing.lastToken? = some Word.blockClose ∧
            line :: later = body ++ closing :: after := by
        obtain ⟨⟨rest, behind⟩, hrest, heq⟩ := Option.map_eq_some_iff.mp hmap
        obtain ⟨rfl, rfl⟩ := Prod.mk.inj heq
        obtain ⟨closing, hclosing, rfl⟩ := ih hrest
        exact ⟨closing, hclosing, rfl⟩
      by_cases hclose : line.lastToken? = some Word.blockClose
      · cases nested with
        | zero =>
            rw [splitBody_end hclose] at hsplit
            obtain ⟨rfl, rfl⟩ := Prod.mk.inj (Option.some.inj hsplit)
            exact ⟨line, hclose, rfl⟩
        | succ outer => exact inner (splitBody_closing hclose ▸ hsplit)
      · by_cases hopen : line.lastToken? = some Word.blockOpen
        · exact inner (splitBody_opening hopen ▸ hsplit)
        · exact inner (splitBody_plain hopen hclose ▸ hsplit)

theorem atLine_eq_ok_iff {α : Type} {number : Nat}
    {result : Except ParseCause α} {value : α} :
    atLine number result = .ok value ↔ result = .ok value := by
  cases result with
  | error cause =>
      have hfailed : atLine number (.error cause : Except ParseCause α) =
          .error ⟨cause, number⟩ := rfl
      simp [hfailed]
  | ok found =>
      have hkept : atLine number (.ok found : Except ParseCause α) =
          .ok found := rfl
      simp [hkept]

theorem atLine_eq_error_iff {α : Type} {number : Nat}
    {result : Except ParseCause α} {error : ParseError} :
    atLine number result = .error error ↔
      error.line = number ∧ result = .error error.cause := by
  cases result with
  | error cause =>
      have hfailed : atLine number (.error cause : Except ParseCause α) =
          .error ⟨cause, number⟩ := rfl
      rw [hfailed]
      constructor
      · rintro ⟨⟩
        exact ⟨rfl, rfl⟩
      · rintro ⟨rfl, ⟨⟩⟩
        rfl
  | ok found =>
      have hkept : atLine number (.ok found : Except ParseCause α) =
          .ok found := rfl
      simp [hkept]

/-- A line gives a statement when its tokens have a kind and the shape of that
kind. -/
theorem parseLine_eq_ok_iff {line : SourceLine} {statement : Statement} :
    parseLine line = .ok statement ↔
      ∃ kind expression, classify line.tokens = .ok kind ∧
        operandSlots kind line.tokens = .ok expression ∧
        statement = { kind, line := line.tokens, lineNo := line.number,
                      expression } := by
  rw [parseLine, atLine_eq_ok_iff]
  simp only [bind_eq_ok_iff, pure_eq_ok_iff]
  constructor
  · rintro ⟨kind, hkind, expression, hslots, rfl⟩
    exact ⟨kind, expression, hkind, hslots, rfl⟩
  · rintro ⟨kind, expression, hkind, hslots, rfl⟩
    exact ⟨kind, hkind, expression, hslots, rfl⟩

/-- A line that gives no statement has no kind, or not the shape of its kind.  The
error has the number of the line. -/
theorem parseLine_eq_error_iff {line : SourceLine} {error : ParseError} :
    parseLine line = .error error ↔
      error.line = line.number ∧
        (classify line.tokens = .error error.cause ∨
          ∃ kind, classify line.tokens = .ok kind ∧
            operandSlots kind line.tokens = .error error.cause) := by
  rw [parseLine, atLine_eq_error_iff]
  simp only [bind_eq_error_iff, and_congr_right_iff]
  intro _
  simp [pure, Except.pure]

theorem line_of_parseLine {line : SourceLine} {statement : Statement}
    (hline : parseLine line = .ok statement) :
    statement.line = line.tokens := by
  obtain ⟨kind, expression, _, _, rfl⟩ := parseLine_eq_ok_iff.mp hline
  rfl

/-- The statements that lines stand for. -/
inductive Parses : List SourceLine → List Statement → Prop
  | nil : Parses [] []
  | blank {line : SourceLine} {later : List SourceLine}
      {statements : List Statement} :
    line.tokens = [] → Parses later statements →
      Parses (line :: later) statements
  | plain {line : SourceLine} {later : List SourceLine}
      {statement : Statement} {rest : List Statement} :
    line.tokens ≠ [] → parseLine line = .ok statement →
      statement.opensBody = false → Parses later rest →
      Parses (line :: later) (statement :: rest)
  | block {line : SourceLine} {later inside after : List SourceLine}
      {statement : Statement} {body rest : List Statement} :
    line.tokens ≠ [] → parseLine line = .ok statement →
      statement.opensBody = true →
      splitBody 0 later = some (inside, after) →
      Parses inside body → Parses after rest →
      Parses (line :: later) ({ statement with body } :: rest)

/-- One step of the parser on a line that is not blank. -/
theorem parseStatements_cons {line : SourceLine} (later : List SourceLine)
    (htokens : line.tokens ≠ []) :
    parseStatements (line :: later) = do
      let statement ← parseLine line
      if statement.opensBody then
        match splitBody 0 later with
        | none => .error ⟨.unterminatedBlock, line.number⟩
        | some (inside, after) =>
          let body ← parseStatements inside
          let rest ← parseStatements after
          return { statement with body } :: rest
      else
        let rest ← parseStatements later
        return statement :: rest := by
  have hblank : ¬ line.tokens.isEmpty = true := by simpa using htokens
  rw [parseStatements, if_neg hblank]
  congr 1
  funext statement
  split
  · split
    · next hsplit => simp only [hsplit]
    · next hsplit => simp only [hsplit]
  · rfl

theorem parses_of_parseStatements {lines : List SourceLine}
    {statements : List Statement}
    (hparse : parseStatements lines = .ok statements) :
    Parses lines statements := by
  induction lines using parseStatements.induct generalizing statements with
  | case1 =>
      rw [parseStatements, Except.ok.injEq] at hparse
      subst hparse
      exact .nil
  | case2 line later hblank ih =>
      rw [parseStatements, if_pos hblank] at hparse
      exact .blank (List.isEmpty_iff.mp hblank) (ih hparse)
  | case3 line later hblank ihInside ihAfter ihLater =>
      have htokens : line.tokens ≠ [] := by simpa using hblank
      rw [parseStatements_cons later htokens] at hparse
      obtain ⟨statement, hline, hparse⟩ := bind_eq_ok_iff.mp hparse
      split at hparse
      · next hopens =>
        split at hparse
        · contradiction
        · next inside after hsplit =>
          obtain ⟨body, hbody, hparse⟩ := bind_eq_ok_iff.mp hparse
          obtain ⟨rest, hrest, hparse⟩ := bind_eq_ok_iff.mp hparse
          rw [pure_eq_ok_iff] at hparse
          subst hparse
          exact .block htokens hline hopens hsplit
            (ihInside _ _ hsplit hbody) (ihAfter _ _ hsplit hrest)
      · next hopens =>
        obtain ⟨rest, hrest, hparse⟩ := bind_eq_ok_iff.mp hparse
        rw [pure_eq_ok_iff] at hparse
        subst hparse
        exact .plain htokens hline (by simpa using hopens) (ihLater hrest)

theorem Parses.parseStatements_eq {lines : List SourceLine}
    {statements : List Statement} (hparses : Parses lines statements) :
    parseStatements lines = .ok statements := by
  induction hparses with
  | nil => rw [parseStatements]
  | blank htokens _ ih => rw [parseStatements, if_pos (by simp [htokens]), ih]
  | plain htokens hline hopens _ ih =>
      rw [parseStatements_cons _ htokens, hline]
      simp [hopens, ih, bind, Except.bind, pure, Except.pure]
  | block htokens hline hopens hsplit _ _ ihBody ihRest =>
      rw [parseStatements_cons _ htokens, hline]
      simp [hopens, hsplit, ihBody, ihRest, bind, Except.bind, pure,
        Except.pure]

/-- The parser succeeds with the statements that the lines stand for. -/
theorem parseStatements_eq_ok_iff {lines : List SourceLine}
    {statements : List Statement} :
    parseStatements lines = .ok statements ↔ Parses lines statements :=
  ⟨parses_of_parseStatements, Parses.parseStatements_eq⟩

theorem parses_of_parseProgram {lines : List SourceLine}
    {arguments : List String} {program : Program}
    (hparse : parseProgram lines arguments = .ok program) :
    Parses lines program.statements := by
  obtain ⟨statements, hstatements, hprogram⟩ := bind_eq_ok_iff.mp hparse
  rw [pure_eq_ok_iff] at hprogram
  subst program
  exact parses_of_parseStatements hstatements

theorem arguments_of_parseProgram {lines : List SourceLine}
    {arguments : List String} {program : Program}
    (hparse : parseProgram lines arguments = .ok program) :
    program.arguments = .ofList arguments := by
  obtain ⟨_, _, hprogram⟩ := bind_eq_ok_iff.mp hparse
  exact (pure_eq_ok_iff.mp hprogram) ▸ rfl

theorem parseProgram_eq_error_iff {lines : List SourceLine}
    {arguments : List String} {error : ParseError} :
    parseProgram lines arguments = .error error ↔
      parseStatements lines = .error error := by
  simp [parseProgram, bind_eq_error_iff, pure, Except.pure]

/-- The errors with which the parser gives up on lines: the first line that gives
no statement, or the first block that is not closed.  The end of a body is looked
for first, and what is inside it comes before what is behind it. -/
inductive Refuses : List SourceLine → ParseError → Prop
  | blank {line : SourceLine} {later : List SourceLine} {error : ParseError} :
    line.tokens = [] → Refuses later error → Refuses (line :: later) error
  | line {line : SourceLine} {later : List SourceLine} {error : ParseError} :
    line.tokens ≠ [] → parseLine line = .error error →
      Refuses (line :: later) error
  | plain {line : SourceLine} {later : List SourceLine}
      {statement : Statement} {error : ParseError} :
    line.tokens ≠ [] → parseLine line = .ok statement →
      statement.opensBody = false → Refuses later error →
      Refuses (line :: later) error
  | unclosed {line : SourceLine} {later : List SourceLine}
      {statement : Statement} :
    line.tokens ≠ [] → parseLine line = .ok statement →
      statement.opensBody = true → splitBody 0 later = none →
      Refuses (line :: later) ⟨.unterminatedBlock, line.number⟩
  | inside {line : SourceLine} {later inside after : List SourceLine}
      {statement : Statement} {error : ParseError} :
    line.tokens ≠ [] → parseLine line = .ok statement →
      statement.opensBody = true →
      splitBody 0 later = some (inside, after) → Refuses inside error →
      Refuses (line :: later) error
  | after {line : SourceLine} {later inside after : List SourceLine}
      {statement : Statement} {body : List Statement} {error : ParseError} :
    line.tokens ≠ [] → parseLine line = .ok statement →
      statement.opensBody = true →
      splitBody 0 later = some (inside, after) → Parses inside body →
      Refuses after error → Refuses (line :: later) error

theorem refuses_of_parseStatements {lines : List SourceLine}
    {error : ParseError} (hparse : parseStatements lines = .error error) :
    Refuses lines error := by
  induction lines using parseStatements.induct with
  | case1 =>
      rw [parseStatements] at hparse
      contradiction
  | case2 line later hblank ih =>
      rw [parseStatements, if_pos hblank] at hparse
      exact .blank (List.isEmpty_iff.mp hblank) (ih hparse)
  | case3 line later hblank ihInside ihAfter ihLater =>
      have htokens : line.tokens ≠ [] := by simpa using hblank
      rw [parseStatements_cons later htokens] at hparse
      rcases bind_eq_error_iff.mp hparse with hline | ⟨statement, hline, hparse⟩
      · exact .line htokens hline
      · split at hparse
        · next hopens =>
          split at hparse
          · next hsplit =>
            obtain rfl := Except.error.inj hparse
            exact .unclosed htokens hline hopens hsplit
          · next inside after hsplit =>
            rcases bind_eq_error_iff.mp hparse with hbody | ⟨body, hbody, hparse⟩
            · exact .inside htokens hline hopens hsplit
                (ihInside _ _ hsplit hbody)
            · rcases bind_eq_error_iff.mp hparse with hrest | ⟨_, _, hdone⟩
              · exact .after htokens hline hopens hsplit
                  (parses_of_parseStatements hbody) (ihAfter _ _ hsplit hrest)
              · contradiction
        · next hopens =>
          rcases bind_eq_error_iff.mp hparse with hrest | ⟨_, _, hdone⟩
          · exact .plain htokens hline (by simpa using hopens) (ihLater hrest)
          · contradiction

end LineScript
