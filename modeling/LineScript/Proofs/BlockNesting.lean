/-
Only an outermost block can be found unterminated.  Reading lines, the depth of
blocks goes up and down by one with the marks at their ends.  A body is searched
for the first closing line that takes the depth back to what it was in front of
the opening line.  Inside a body that was found the depth ends where it started,
so it passes the depth of every inner block on the way and each of these is closed
inside the body.
-/
import Mathlib.Algebra.Ring.Int.Defs
import LineScript.Proofs.LayoutRoundTrip
import LineScript.Proofs.ParseConcatenation

namespace LineScript

/-- How a line changes the depth of blocks: by its last token alone. -/
def SourceLine.depthStep (line : SourceLine) : Int :=
  if line.lastToken? = some Word.blockClose then -1
  else if line.lastToken? = some Word.blockOpen then 1
  else 0

/-- How lines change the depth of blocks. -/
def depthChange (lines : List SourceLine) : Int :=
  (lines.map SourceLine.depthStep).sum

section Depth

variable {line : SourceLine}

theorem depthStep_closing (hclose : line.lastToken? = some Word.blockClose) :
    line.depthStep = -1 :=
  if_pos hclose

theorem depthStep_opening (hopen : line.lastToken? = some Word.blockOpen) :
    line.depthStep = 1 := by
  have hclose : line.lastToken? ≠ some Word.blockClose := by
    rw [hopen]
    decide
  rw [SourceLine.depthStep, if_neg hclose, if_pos hopen]

theorem depthStep_plain (hopen : line.lastToken? ≠ some Word.blockOpen)
    (hclose : line.lastToken? ≠ some Word.blockClose) : line.depthStep = 0 := by
  rw [SourceLine.depthStep, if_neg hclose, if_neg hopen]

@[simp]
theorem depthChange_nil : depthChange [] = 0 :=
  rfl

@[simp]
theorem depthChange_cons (line : SourceLine) (later : List SourceLine) :
    depthChange (line :: later) = line.depthStep + depthChange later := by
  simp [depthChange]

@[simp]
theorem depthChange_append (front back : List SourceLine) :
    depthChange (front ++ back) = depthChange front + depthChange back := by
  simp [depthChange]

end Depth

/-- Starting at a depth, no part of the lines from the front leads down to
zero. -/
def StaysOpen (depth : Int) (lines : List SourceLine) : Prop :=
  ∀ read, read <+: lines → 0 < depth + depthChange read

theorem staysOpen_nil_iff {depth : Int} : StaysOpen depth [] ↔ 0 < depth := by
  simp [StaysOpen]

theorem staysOpen_cons_iff {depth : Int} {line : SourceLine}
    {later : List SourceLine} :
    StaysOpen depth (line :: later) ↔
      0 < depth ∧ StaysOpen (depth + line.depthStep) later := by
  constructor
  · intro hstays
    constructor
    · simpa using hstays [] List.nil_prefix
    · intro read hread
      have hlonger := hstays (line :: read) ((List.prefix_cons_inj line).mpr hread)
      rw [depthChange_cons] at hlonger
      omega
  · rintro ⟨hpositive, hlater⟩ read hread
    rcases List.prefix_cons_iff.mp hread with rfl | ⟨rest, rfl, hrest⟩
    · simpa using hpositive
    · have hshorter := hlater rest hrest
      rw [depthChange_cons]
      omega

/-- Lines that lead from a level down to zero and never below. -/
structure LeadsOut (level : Int) (lines : List SourceLine) : Prop where
  stays : StaysOpen (level + 1) lines
  ends : level + depthChange lines = 0

theorem LeadsOut.nonneg {level : Int} {lines : List SourceLine}
    (hleads : LeadsOut level lines) : 0 ≤ level := by
  have hstart := hleads.stays [] List.nil_prefix
  rw [depthChange_nil] at hstart
  omega

theorem leadsOut_nil_iff {level : Int} : LeadsOut level [] ↔ level = 0 := by
  constructor
  · intro hleads
    simpa using hleads.ends
  · rintro rfl
    exact ⟨staysOpen_nil_iff.mpr (by decide), rfl⟩

theorem leadsOut_cons_iff {level : Int} {line : SourceLine}
    {later : List SourceLine} :
    LeadsOut level (line :: later) ↔
      0 ≤ level ∧ LeadsOut (level + line.depthStep) later := by
  have hlevel : level + 1 + line.depthStep = level + line.depthStep + 1 := by
    omega
  constructor
  · rintro ⟨hstays, hends⟩
    obtain ⟨hpositive, hlater⟩ := staysOpen_cons_iff.mp hstays
    rw [hlevel] at hlater
    rw [depthChange_cons] at hends
    exact ⟨by omega, hlater, by omega⟩
  · rintro ⟨hnonnegative, hstays, hends⟩
    refine ⟨staysOpen_cons_iff.mpr ⟨by omega, ?_⟩, ?_⟩
    · rw [hlevel]
      exact hstays
    · rw [depthChange_cons]
      omega

/-- The search for the end of a body stops at a closing line, or it goes on behind
a line of the body at the depth that this line leads to. -/
theorem splitBody_cons (nested : Nat) (line : SourceLine)
    (later : List SourceLine) :
    (nested = 0 ∧ line.lastToken? = some Word.blockClose ∧
      splitBody nested (line :: later) = some ([], later)) ∨
    ∃ depth : Nat, depth = nested + line.depthStep ∧
      splitBody nested (line :: later) =
        (splitBody depth later).map fun split => (line :: split.1, split.2) := by
  by_cases hclose : line.lastToken? = some Word.blockClose
  · cases nested with
    | zero => exact Or.inl ⟨rfl, hclose, splitBody_end hclose⟩
    | succ outer =>
        refine Or.inr ⟨outer, ?_, splitBody_closing hclose⟩
        rw [depthStep_closing hclose]
        omega
  · by_cases hopen : line.lastToken? = some Word.blockOpen
    · refine Or.inr ⟨nested + 1, ?_, splitBody_opening hopen⟩
      rw [depthStep_opening hopen]
      omega
    · refine Or.inr ⟨nested, ?_, splitBody_plain hopen hclose⟩
      rw [depthStep_plain hopen hclose]
      omega

/-- A block is not closed when the depth never comes down to zero. -/
theorem splitBody_eq_none_iff {nested : Nat} {lines : List SourceLine} :
    splitBody nested lines = none ↔ StaysOpen (nested + 1) lines := by
  induction lines generalizing nested with
  | nil =>
      rw [staysOpen_nil_iff]
      exact iff_of_true rfl (by omega)
  | cons line later ih =>
      rw [staysOpen_cons_iff]
      rcases splitBody_cons nested line later with
        ⟨rfl, hclose, hsplit⟩ | ⟨depth, hdepth, hsplit⟩
      · rw [hsplit, depthStep_closing hclose]
        refine iff_of_false (by simp) ?_
        rintro ⟨_, hlater⟩
        have hstart := hlater [] List.nil_prefix
        simp at hstart
      · have hnext : (nested : Int) + 1 + line.depthStep = depth + 1 := by omega
        rw [hsplit, Option.map_eq_none_iff, ih, hnext]
        exact (and_iff_right (by omega)).symm

/-- The body of a block leads back to the depth of the block, and a closing line
follows. -/
theorem splitBody_eq_some_iff {nested : Nat}
    {lines body after : List SourceLine} :
    splitBody nested lines = some (body, after) ↔
      LeadsOut nested body ∧
        ∃ closing, closing.lastToken? = some Word.blockClose ∧
          lines = body ++ closing :: after := by
  induction lines generalizing nested body with
  | nil => simp [splitBody]
  | cons line later ih =>
      rcases splitBody_cons nested line later with
        ⟨rfl, hclose, hsplit⟩ | ⟨depth, hdepth, hsplit⟩
      · rw [hsplit]
        constructor
        · rintro ⟨⟩
          exact ⟨leadsOut_nil_iff.mpr rfl, line, hclose, rfl⟩
        · rintro ⟨hleads, closing, _, hlines⟩
          cases body with
          | nil =>
              obtain ⟨_, rfl⟩ := List.cons.inj hlines
              rfl
          | cons first rest =>
              -- The body would start with the closing line.
              obtain ⟨rfl, _⟩ := List.cons.inj hlines
              have hrest := (leadsOut_cons_iff.mp hleads).2.nonneg
              rw [depthStep_closing hclose] at hrest
              contradiction
      · rw [hsplit, Option.map_eq_some_iff]
        constructor
        · rintro ⟨⟨rest, behind⟩, hrest, ⟨⟩⟩
          obtain ⟨hleads, closing, hclosing, rfl⟩ := ih.mp hrest
          rw [hdepth] at hleads
          exact ⟨leadsOut_cons_iff.mpr ⟨by omega, hleads⟩, closing, hclosing, rfl⟩
        · rintro ⟨hleads, closing, hclosing, hlines⟩
          cases body with
          | nil =>
              -- At depth zero the search would have stopped at the closing line.
              obtain ⟨rfl, _⟩ := List.cons.inj hlines
              have hzero := leadsOut_nil_iff.mp hleads
              rw [depthStep_closing hclosing] at hdepth
              omega
          | cons first rest =>
              obtain ⟨rfl, rfl⟩ := List.cons.inj hlines
              obtain ⟨_, hrest⟩ := leadsOut_cons_iff.mp hleads
              rw [← hdepth] at hrest
              exact ⟨(rest, after), ih.mpr ⟨hrest, closing, hclosing, rfl⟩, rfl⟩

/-- A block that starts inside such lines is closed inside them, and the lines
behind it lead out as well. -/
theorem LeadsOut.exists_splitBody {level : Int} {lines : List SourceLine}
    (hleads : LeadsOut (level + 1) lines) (hlevel : 0 ≤ level) :
    ∃ inside after, splitBody 0 lines = some (inside, after) ∧
      LeadsOut level after := by
  cases hsplit : splitBody 0 lines with
  | none =>
      -- The depth ends at zero, on or below that of the line in front.
      have hstays := splitBody_eq_none_iff.mp hsplit lines List.prefix_rfl
      have hends := hleads.ends
      omega
  | some split =>
      obtain ⟨inside, after⟩ := split
      obtain ⟨hinside, closing, hclosing, rfl⟩ :=
        splitBody_eq_some_iff.mp hsplit
      have hclosed := hinside.ends
      have hstep := depthStep_closing hclosing
      refine ⟨inside, after, rfl, ?_, ?_⟩
      · intro read hread
        have hlonger := hleads.stays (inside ++ closing :: read)
          ((List.prefix_append_right_inj inside).mpr
            ((List.prefix_cons_inj closing).mpr hread))
        rw [depthChange_append, depthChange_cons] at hlonger
        omega
      · have hends := hleads.ends
        rw [depthChange_append, depthChange_cons] at hends
        omega

/-- So a line of them that ends with the opening mark has a body behind it. -/
theorem LeadsOut.exists_body {level : Int} {line : SourceLine}
    {later : List SourceLine} (hleads : LeadsOut level (line :: later))
    (hopen : line.lastToken? = some Word.blockOpen) :
    ∃ inside after, splitBody 0 later = some (inside, after) ∧
      LeadsOut level after := by
  obtain ⟨hlevel, hlater⟩ := leadsOut_cons_iff.mp hleads
  rw [depthStep_opening hopen] at hlater
  exact hlater.exists_splitBody hlevel

theorem LeadsOut.behind_body {level : Int} {line : SourceLine}
    {later inside after : List SourceLine}
    (hleads : LeadsOut level (line :: later))
    (hopen : line.lastToken? = some Word.blockOpen)
    (hsplit : splitBody 0 later = some (inside, after)) :
    LeadsOut level after := by
  obtain ⟨_, _, hfound, hafter⟩ := hleads.exists_body hopen
  rw [hsplit] at hfound
  obtain ⟨rfl, rfl⟩ := Prod.mk.inj (Option.some.inj hfound)
  exact hafter

/-- What the tokens of a line are refused for is not an open block. -/
theorem classify_ne_unterminated (tokens : List String) :
    classify tokens ≠ .error .unterminatedBlock := by
  unfold classify
  grind

theorem operandSlots_ne_unterminated (kind : StatementKind)
    (tokens : List String) :
    operandSlots kind tokens ≠ .error .unterminatedBlock := by
  have hcount : checkTokenCount kind tokens ≠ .error .unterminatedBlock := by
    unfold checkTokenCount
    grind
  have hassign : expectAssign tokens ≠ .error .unterminatedBlock := by
    unfold expectAssign
    grind
  have hseparator :
      expectParameterSeparator tokens ≠ .error .unterminatedBlock := by
    unfold expectParameterSeparator
    grind
  have hmark (block : StatementKind) :
      expectBlockOpen block tokens ≠ .error .unterminatedBlock := by
    unfold expectBlockOpen
    grind
  have harray (right : List String) :
      arrayOperands right ≠ .error .unterminatedBlock := by
    unfold arrayOperands
    grind
  have hcall : callOperands tokens ≠ .error .unterminatedBlock := by
    unfold callOperands
    grind
  have hparameters :
      parameterOperands tokens ≠ .error .unterminatedBlock := by
    unfold parameterOperands
    grind
  refine bind_ne_error hcount fun _ => ?_
  cases kind with
  | declare | constant => exact bind_ne_error hassign fun _ => nofun
  | arrayDeclare => exact bind_ne_error hassign fun _ => harray _
  | branch | loop | otherwise => exact bind_ne_error (hmark _) fun _ => nofun
  | define =>
      exact bind_ne_error hseparator fun _ =>
        bind_ne_error (hmark _) fun _ => hparameters
  | call => exact hcall
  | blockOpen | blockClose | unknown =>
      intro hshape
      exact absurd (Except.error.inj hshape) (by simp)
  | _ => exact nofun

theorem cause_of_parseLine {line : SourceLine} {error : ParseError}
    (hline : parseLine line = .error error) :
    error.cause ≠ .unterminatedBlock := by
  obtain ⟨_, hclassify | ⟨kind, _, hslots⟩⟩ := parseLine_eq_error_iff.mp hline
  · intro hcause
    rw [hcause] at hclassify
    exact classify_ne_unterminated _ hclassify
  · intro hcause
    rw [hcause] at hslots
    exact operandSlots_ne_unterminated _ _ hslots

/-- A line that opens a body ends with the opening mark. -/
theorem lastToken?_of_opensBody {line : SourceLine} {statement : Statement}
    (hline : parseLine line = .ok statement)
    (hopens : statement.opensBody = true) :
    line.lastToken? = some Word.blockOpen := by
  obtain ⟨kind, expression, _, hslots, rfl⟩ := parseLine_eq_ok_iff.mp hline
  simp only [Statement.opensBody, opensBody, Bool.or_eq_true,
    Bool.and_eq_true, endsWithBlockOpen, decide_eq_true_eq] at hopens
  rcases hopens with hblock | ⟨_, hlast⟩
  · exact getLast?_of_isBlock hblock hslots
  · exact hlast

/-- Lines that lead out of where they stand are never refused for an open block. -/
theorem Refuses.ne_unterminated {lines : List SourceLine}
    {error : ParseError} (hrefuses : Refuses lines error) {level : Int}
    (hleads : LeadsOut level lines) : error.cause ≠ .unterminatedBlock := by
  induction hrefuses generalizing level with
  | blank _ _ ih => exact ih (leadsOut_cons_iff.mp hleads).2
  | line _ hline => exact cause_of_parseLine hline
  | plain _ _ _ _ ih => exact ih (leadsOut_cons_iff.mp hleads).2
  | unclosed _ hline hopens hsplit =>
      obtain ⟨_, _, hfound, _⟩ :=
        hleads.exists_body (lastToken?_of_opensBody hline hopens)
      rw [hsplit] at hfound
      contradiction
  | inside _ _ _ hsplit _ ih =>
      exact ih (splitBody_eq_some_iff.mp hsplit).1
  | after _ hline hopens hsplit _ _ ih =>
      have hopen := lastToken?_of_opensBody hline hopens
      exact ih (hleads.behind_body hopen hsplit)

/-- A block at the outermost level that is opened on the line with the given number
and never closed: complete statements stand in front of that line, it gives a
statement that opens a body, and behind it the depth never comes down to zero. -/
def OutermostOpen (lines : List SourceLine) (number : Nat) : Prop :=
  ∃ front line later statements statement,
    lines = front ++ line :: later ∧ parseStatements front = .ok statements ∧
      line.number = number ∧ parseLine line = .ok statement ∧
      statement.opensBody = true ∧ StaysOpen 1 later

/-- More statements in front of a block leave it at the outermost level. -/
theorem OutermostOpen.behind {front lines : List SourceLine} {number : Nat}
    {before : List Statement} (hopen : OutermostOpen lines number)
    (hfront : Parses front before) : OutermostOpen (front ++ lines) number := by
  obtain ⟨between, line, later, statements, statement, rfl, hbetween, hrest⟩ :=
    hopen
  refine ⟨front ++ between, line, later, before ++ statements, statement,
    by simp, ?_, hrest⟩
  rw [hfront.parseStatements_append, hbetween]
  rfl

theorem Refuses.outermostOpen {lines : List SourceLine} {error : ParseError}
    (hrefuses : Refuses lines error)
    (hcause : error.cause = .unterminatedBlock) :
    OutermostOpen lines error.line := by
  induction hrefuses with
  | @blank line _ _ htokens _ ih =>
      have hfront : Parses [line] [] := .blank htokens .nil
      exact (ih hcause).behind hfront
  | line _ hline => exact absurd hcause (cause_of_parseLine hline)
  | @plain line _ statement _ htokens hline hopens _ ih =>
      have hfront : Parses [line] [statement] :=
        .plain htokens hline hopens .nil
      exact (ih hcause).behind hfront
  | @unclosed line later statement _ hline hopens hsplit =>
      have hstays := splitBody_eq_none_iff.mp hsplit
      exact ⟨[], line, later, [], statement, rfl, Parses.nil.parseStatements_eq,
        rfl, hline, hopens, hstays⟩
  | inside _ _ _ hsplit hinside _ =>
      have hleads := (splitBody_eq_some_iff.mp hsplit).1
      exact absurd hcause (hinside.ne_unterminated hleads)
  | @after line later inside after statement body _ htokens hline hopens hsplit
      hbody _ ih =>
      obtain ⟨hleads, closing, hclosing, rfl⟩ := splitBody_eq_some_iff.mp hsplit
      -- The whole block is one statement in front of the rest.
      have halone : splitBody 0 (inside ++ [closing]) = some (inside, []) :=
        splitBody_eq_some_iff.mpr ⟨hleads, closing, hclosing, rfl⟩
      have hfront : Parses (line :: (inside ++ [closing]))
          [{ statement with body }] :=
        .block htokens hline hopens halone hbody .nil
      have hbehind := (ih hcause).behind hfront
      rwa [List.cons_append, List.append_assoc, List.singleton_append] at hbehind

theorem OutermostOpen.parseStatements_eq {lines : List SourceLine}
    {number : Nat} (hopen : OutermostOpen lines number) :
    parseStatements lines = .error ⟨.unterminatedBlock, number⟩ := by
  obtain ⟨front, line, later, statements, statement, rfl, hfront, rfl, hline,
    hopens, hstays⟩ := hopen
  have htokens : line.tokens ≠ [] := by
    intro hempty
    obtain ⟨kind, _, hkind, _⟩ := parseLine_eq_ok_iff.mp hline
    rw [hempty] at hkind
    contradiction
  have hsplit : splitBody 0 later = none := splitBody_eq_none_iff.mpr hstays
  rw [(parses_of_parseStatements hfront).parseStatements_append,
    parseStatements_cons later htokens, hline]
  simp [hopens, hsplit, bind, Except.bind, Except.map]

/-- An error names one of the lines, and it is the error of that line unless a
block is open there. -/
theorem Refuses.exists_line {lines : List SourceLine} {error : ParseError}
    (hrefuses : Refuses lines error) :
    ∃ line ∈ lines, line.number = error.line ∧
      (error.cause ≠ .unterminatedBlock → parseLine line = .error error) := by
  induction hrefuses with
  | blank _ _ ih | plain _ _ _ _ ih =>
      obtain ⟨line, hmem, hnumber, hline⟩ := ih
      exact ⟨line, List.mem_cons_of_mem _ hmem, hnumber, hline⟩
  | @line line _ _ _ hline =>
      have hnumber := (parseLine_eq_error_iff.mp hline).1
      exact ⟨line, List.mem_cons_self, hnumber.symm, fun _ => hline⟩
  | @unclosed line _ _ _ _ _ _ =>
      exact ⟨line, List.mem_cons_self, rfl, fun hcause => absurd rfl hcause⟩
  | inside _ _ _ hsplit _ ih =>
      obtain ⟨line, hmem, hnumber, hline⟩ := ih
      obtain ⟨closing, _, rfl⟩ := eq_append_of_splitBody hsplit
      exact ⟨line, by simp [hmem], hnumber, hline⟩
  | after _ _ _ hsplit _ _ ih =>
      obtain ⟨line, hmem, hnumber, hline⟩ := ih
      obtain ⟨closing, _, rfl⟩ := eq_append_of_splitBody hsplit
      exact ⟨line, by simp [hmem], hnumber, hline⟩

/-- Once the end of a block is found, nothing inside it is refused for an open
block, at whatever depth.  So the parser reports an open block exactly where one
stands at the outermost level, and every other error is that of the tokens of the
line it names: they have no kind, or not the shape of their kind. -/
theorem unterminated_only_outermost (lines : List SourceLine)
    (arguments : List String) :
    (∀ inside after error, splitBody 0 lines = some (inside, after) →
      parseStatements inside = .error error →
      error.cause ≠ .unterminatedBlock) ∧
    (∀ number,
      parseProgram lines arguments = .error ⟨.unterminatedBlock, number⟩ ↔
        OutermostOpen lines number) ∧
    ∀ error, parseProgram lines arguments = .error error →
      error.cause ≠ .unterminatedBlock →
      ∃ line ∈ lines, line.number = error.line ∧
        (classify line.tokens = .error error.cause ∨
          ∃ kind, classify line.tokens = .ok kind ∧
            operandSlots kind line.tokens = .error error.cause) := by
  simp only [parseProgram_eq_error_iff]
  refine ⟨?_, ?_, ?_⟩
  · intro inside after error hsplit hparse
    have hleads := (splitBody_eq_some_iff.mp hsplit).1
    exact (refuses_of_parseStatements hparse).ne_unterminated hleads
  · intro number
    constructor
    · intro hparse
      exact (refuses_of_parseStatements hparse).outermostOpen rfl
    · exact OutermostOpen.parseStatements_eq
  · intro error hparse hcause
    obtain ⟨line, hmem, hnumber, hline⟩ :=
      (refuses_of_parseStatements hparse).exists_line
    exact ⟨line, hmem, hnumber, (parseLine_eq_error_iff.mp (hline hcause)).2⟩

/-- A statement, and a branch that is never closed because the loop inside takes
the closing line. -/
def openBranch : List SourceLine :=
  numberFrom 4 ["print a", "if a \x7b", "while b \x7b", "\x7d"]

/-- A line that is no statement. -/
def spoiltLine : SourceLine := ⟨2, "x y"⟩

/-- The branch is reported, not the loop.  In a body that was found, a line that is
no statement is reported for its tokens. -/
theorem openBranch_is_reported :
    parseProgram openBranch [] = .error ⟨.unterminatedBlock, 5⟩ ∧
    splitBody 0 [spoiltLine, ⟨3, "\x7d"⟩] = some ([spoiltLine], []) ∧
    ∃ error, parseProgram [spoiltLine] [] = .error error ∧
      error.cause ≠ .unterminatedBlock ∧
      ∃ line ∈ [spoiltLine], line.number = error.line ∧
        (classify line.tokens = .error error.cause ∨
          ∃ kind, classify line.tokens = .ok kind ∧
            operandSlots kind line.tokens = .error error.cause) := by
  have hfront : Parses [⟨4, "print a"⟩]
      [{ kind := .print, line := ["print", "a"], lineNo := 4
         expression := { left := "a" } }] :=
    .plain (by decide +kernel)
      (parseLine_eq_ok_iff.mpr ⟨.print, { left := "a" }, rfl, rfl, rfl⟩) rfl .nil
  have hbranch : parseLine ⟨5, "if a \x7b"⟩ =
      .ok { kind := .branch, line := ["if", "a", "\x7b"], lineNo := 5
            expression := { left := "a" } } :=
    parseLine_eq_ok_iff.mpr ⟨.branch, { left := "a" }, rfl, rfl, rfl⟩
  have hopen : OutermostOpen openBranch 5 :=
    ⟨_, _, _, _, _, rfl, hfront.parseStatements_eq, rfl, hbranch, rfl,
      splitBody_eq_none_iff.mp rfl⟩
  have hsplit : splitBody 0 [spoiltLine, ⟨3, "\x7d"⟩] =
      some ([spoiltLine], []) := rfl
  have hparse : parseStatements [spoiltLine] =
      .error ⟨.missingAssign (some "y"), 2⟩ := by
    rw [parseStatements_cons [] (by decide +kernel)]
    rfl
  have hprogram : parseProgram [spoiltLine] [] =
      .error ⟨.missingAssign (some "y"), 2⟩ :=
    parseProgram_eq_error_iff.mpr hparse
  obtain ⟨hinside, _, _⟩ :=
    unterminated_only_outermost [spoiltLine, ⟨3, "\x7d"⟩] []
  obtain ⟨_, _, hlines⟩ := unterminated_only_outermost [spoiltLine] []
  have hcause := hinside _ _ _ hsplit hparse
  exact ⟨((unterminated_only_outermost openBranch []).2.1 5).mpr hopen, hsplit,
    _, hprogram, hcause, hlines _ hprogram hcause⟩

end LineScript
