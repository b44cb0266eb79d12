/-
The lines that a parsed program keeps.  Marks at the ends of lines are matched as
brackets are: a line that ends with the closing mark matches the nearest line in
front of it that ends with the opening mark and is not matched yet.  If a body
starts behind that line, the closing line ends it and stands for nothing but the
closing mark; what is written in front of the mark on it is not part of the
program.  Every other line is a statement, with all its tokens, whatever mark it
ends with.
-/
import LineScript.Proofs.BlockNesting

namespace LineScript

/-- A body starts behind a line with these tokens. -/
def startsBody (tokens : List String) : Bool :=
  match classify tokens with
  | .ok kind => opensBody kind tokens
  | .error _ => false

/-- Lines in which those that close a body are replaced by the closing mark.
`marks` has an entry for each opening mark in front that no closing mark matches,
the last one first, and tells whether a body starts there. -/
def bareClosings : List Bool → List (List String) → List (List String)
  | _, [] => []
  | marks, tokens :: later =>
    if tokens.getLast? = some Word.blockClose then
      (if marks.head? = some true then [Word.blockClose] else tokens) ::
        bareClosings marks.tail later
    else if tokens.getLast? = some Word.blockOpen then
      tokens :: bareClosings (startsBody tokens :: marks) later
    else
      tokens :: bareClosings marks later

@[simp]
theorem bareClosings_nil (marks : List Bool) : bareClosings marks [] = [] := by
  rw [bareClosings]

section Line

variable {tokens : List String} (later : List (List String))

theorem bareClosings_closing (outer : List Bool)
    (hclose : tokens.getLast? = some Word.blockClose) :
    bareClosings (true :: outer) (tokens :: later) =
      [Word.blockClose] :: bareClosings outer later := by
  rw [bareClosings, if_pos hclose]
  rfl

theorem bareClosings_opening (marks : List Bool)
    (hopen : tokens.getLast? = some Word.blockOpen) :
    bareClosings marks (tokens :: later) =
      tokens :: bareClosings (startsBody tokens :: marks) later := by
  have hclose : tokens.getLast? ≠ some Word.blockClose := by
    rw [hopen]
    decide
  rw [bareClosings, if_neg hclose, if_pos hopen]

/-- A line without a body leaves the marks of bodies as they are.  The loose marks
in front of them are counted as the depth is, but at the outermost level a closing
mark may find none. -/
theorem bareClosings_loose {line : SourceLine}
    (hplain : startsBody line.tokens = false) {loose : Nat} {marks : List Bool}
    (hlevel : marks = [] ∨ 0 ≤ loose + line.depthStep) :
    bareClosings (List.replicate loose false ++ marks)
        (line.tokens :: later) =
      line.tokens :: bareClosings
        (List.replicate (loose + line.depthStep).toNat false ++ marks) later := by
  by_cases hclose : line.tokens.getLast? = some Word.blockClose
  · rw [depthStep_closing hclose] at hlevel ⊢
    rw [bareClosings, if_pos hclose]
    cases loose with
    | zero =>
        obtain rfl := hlevel.resolve_right (by decide)
        rfl
    | succ fewer =>
        have hfewer : ((fewer + 1 : Nat) + (-1) : Int).toNat = fewer := by omega
        rw [hfewer]
        rfl
  · by_cases hopen : line.tokens.getLast? = some Word.blockOpen
    · have hmore : ((loose : Int) + 1).toNat = loose + 1 := by omega
      rw [bareClosings_opening later _ hopen, hplain, depthStep_opening hopen,
        hmore]
      rfl
    · rw [bareClosings, if_neg hclose, if_neg hopen, depthStep_plain hopen hclose,
        Int.add_zero, Int.toNat_natCast]

end Line

theorem startsBody_of_parseLine {line : SourceLine} {statement : Statement}
    (hline : parseLine line = .ok statement) :
    startsBody line.tokens = statement.opensBody := by
  obtain ⟨kind, _, hkind, _, rfl⟩ := parseLine_eq_ok_iff.mp hline
  rw [startsBody, hkind]
  rfl

/-- The lines of statements are the lines that these were parsed from, where the
closing lines stand for the closing mark.  `loose` opening marks of lines without a
body stand in front.  The lines lead out of the body that they stand in, or they
stand at the outermost level, in front of nothing else. -/
theorem Parses.bareClosings_append {lines : List SourceLine}
    {statements : List Statement} (hparses : Parses lines statements)
    {loose : Nat} {marks : List Bool} {behind : List (List String)}
    (hplace : LeadsOut loose lines ∨ marks = [] ∧ behind = []) :
    bareClosings (List.replicate loose false ++ marks)
        (sourceTokens lines ++ behind) =
      tokenLines statements ++ bareClosings marks behind := by
  induction hparses generalizing loose marks behind with
  | nil =>
      rcases hplace with hleads | ⟨rfl, rfl⟩
      · obtain rfl : loose = 0 := by simpa using leadsOut_nil_iff.mp hleads
        rfl
      · simp [sourceTokens, tokenLines]
  | @blank line later statements htokens _ ih =>
      rw [sourceTokens_blank htokens]
      refine ih (hplace.imp_left fun hleads => ?_)
      have hlast : line.lastToken? = none := by
        rw [SourceLine.lastToken?, htokens, List.getLast?_nil]
      have hlater := (leadsOut_cons_iff.mp hleads).2
      rwa [depthStep_plain (by simp [hlast]) (by simp [hlast]),
        Int.add_zero] at hlater
  | @plain line later statement rest htokens hline hopens _ ih =>
      have hplain := (startsBody_of_parseLine hline).trans hopens
      rw [sourceTokens_cons htokens, List.cons_append,
        tokenLines_plain hopens, line_of_parseLine hline, List.cons_append]
      rcases hplace with hleads | ⟨rfl, rfl⟩
      · obtain ⟨_, hlater⟩ := leadsOut_cons_iff.mp hleads
        have hlevel := hlater.nonneg
        have hnext : (((loose : Int) + line.depthStep).toNat : Int) =
            loose + line.depthStep := Int.toNat_of_nonneg hlevel
        rw [← hnext] at hlater
        rw [bareClosings_loose _ hplain (Or.inr hlevel), ih (Or.inl hlater)]
      · rw [bareClosings_loose _ hplain (Or.inl rfl), ih (Or.inr ⟨rfl, rfl⟩)]
  | @block line later inside after statement body rest htokens hline hopens
      hsplit _ _ ihBody ihRest =>
      obtain ⟨hinside, closing, hclosing, rfl⟩ := splitBody_eq_some_iff.mp hsplit
      have hopen := lastToken?_of_opensBody hline hopens
      have hstarts := (startsBody_of_parseLine hline).trans hopens
      have hnonempty : closing.tokens ≠ [] := by
        intro hempty
        simp [SourceLine.lastToken?, hempty] at hclosing
      have hblock : ({ statement with body } : Statement).opensBody = true :=
        hopens
      have hafter : LeadsOut loose after ∨ marks = [] ∧ behind = [] :=
        hplace.imp_left fun hleads => hleads.behind_body hopen hsplit
      -- The marks in front of the body wait behind that of the opening line.
      have hbody := @ihBody 0 (true :: (List.replicate loose false ++ marks))
        (closing.tokens :: (sourceTokens after ++ behind)) (Or.inl hinside)
      rw [List.replicate_zero, List.nil_append,
        bareClosings_closing _ _ hclosing, ihRest hafter] at hbody
      rw [sourceTokens_cons htokens, sourceTokens_append,
        sourceTokens_cons hnonempty, List.cons_append, List.append_assoc,
        List.cons_append, bareClosings_opening _ _ hopen, hstarts, hbody,
        tokenLines_block hblock, line_of_parseLine hline, List.cons_append,
        List.append_assoc, List.cons_append]

/-- Where the closing mark stands alone on every line that it ends, nothing is
replaced. -/
theorem bareClosings_eq_self {marks : List Bool} {source : List (List String)}
    (halone : ∀ tokens ∈ source, tokens.getLast? = some Word.blockClose →
      tokens = [Word.blockClose]) : bareClosings marks source = source := by
  induction source generalizing marks with
  | nil => exact bareClosings_nil marks
  | cons tokens later ih =>
      obtain ⟨hfirst, hlater⟩ := List.forall_mem_cons.mp halone
      simp only [bareClosings, ih hlater]
      split
      · next hclose =>
        rw [hfirst hclose, ite_self]
      · exact ite_self _

/-- A program that was parsed has the lines of its source, in their order and with
all their tokens, but for those that close a body: of these only the closing mark
is left.  If the closing mark always stands alone where it ends a line, nothing of
the source is missing. -/
theorem parsed_program_keeps_lines {lines : List SourceLine}
    {arguments : List String} {program : Program}
    (hparse : parseProgram lines arguments = .ok program) :
    tokenLines program.statements = bareClosings [] (sourceTokens lines) ∧
      ((∀ line ∈ lines, line.lastToken? = some Word.blockClose →
          line.tokens = [Word.blockClose]) →
        tokenLines program.statements = sourceTokens lines) := by
  have hlines : tokenLines program.statements =
      bareClosings [] (sourceTokens lines) := by
    have hall : bareClosings (List.replicate 0 false ++ [])
        (sourceTokens lines ++ []) =
          tokenLines program.statements ++ bareClosings [] [] :=
      (parses_of_parseProgram hparse).bareClosings_append (Or.inr ⟨rfl, rfl⟩)
    simpa using hall.symm
  refine ⟨hlines, ?_⟩
  intro halone
  rw [hlines]
  apply bareClosings_eq_self
  intro tokens htokens hlast
  simp only [sourceTokens, List.mem_filter, List.mem_map] at htokens
  obtain ⟨⟨line, hline, rfl⟩, _⟩ := htokens
  exact halone line hline hlast

/-- A branch with a body. -/
def branchOnFlag (body : List Statement) : Statement where
  kind := .branch
  line := ["if", "flag", "\x7b"]
  lineNo := 1
  expression := { left := "flag" }
  body := body

theorem parseProgram_of_branchOnFlag {later inside after : List SourceLine}
    {body rest : List Statement}
    (hsplit : splitBody 0 later = some (inside, after))
    (hinside : Parses inside body) (hafter : Parses after rest) :
    parseProgram (⟨1, "if flag \x7b"⟩ :: later) [] =
      .ok ⟨branchOnFlag body :: rest, .ofList []⟩ := by
  have hline : parseLine ⟨1, "if flag \x7b"⟩ = .ok (branchOnFlag []) :=
    parseLine_eq_ok_iff.mpr ⟨.branch, { left := "flag" }, rfl, rfl, rfl⟩
  have hparses : Parses (⟨1, "if flag \x7b"⟩ :: later)
      (branchOnFlag body :: rest) :=
    .block (by decide +kernel) hline rfl hsplit hinside hafter
  rw [parseProgram, parseStatements_eq_ok_iff.mpr hparses]
  rfl

/-- A branch that is closed behind a statement on the same line. -/
def closedBehindStatement : List SourceLine :=
  numberFrom 1 ["if flag \x7b", "print a \x7d"]

/-- The statement in front of the closing mark is not in the program. -/
theorem closing_line_loses_tokens :
    ∃ program, parseProgram closedBehindStatement [] = .ok program ∧
      tokenLines program.statements ≠ sourceTokens closedBehindStatement := by
  refine ⟨_, parseProgram_of_branchOnFlag rfl .nil .nil, ?_⟩
  decide +kernel

/-- Three lines that end with the closing mark.  The first one matches the mark
that is printed in front of it, the second one closes the branch, and the third one
matches nothing. -/
def closingMarks : List SourceLine :=
  numberFrom 1 ["if flag \x7b", "print \x7b", "print a \x7d", "print b \x7d",
    "print c \x7d"]

/-- A branch that is closed on a line of its own. -/
def closedApart : List SourceLine :=
  numberFrom 1 ["if flag \x7b", "", "\x7d"]

theorem closing_marks_keep_lines :
    (∃ program, parseProgram closingMarks [] = .ok program ∧
      tokenLines program.statements =
        [["if", "flag", "\x7b"], ["print", "\x7b"], ["print", "a", "\x7d"],
          ["\x7d"], ["print", "c", "\x7d"]]) ∧
    (∃ program, parseProgram closedApart [] = .ok program ∧
      tokenLines program.statements =
        [["if", "flag", "\x7b"], ["\x7d"]]) := by
  constructor
  · have hinside : Parses [⟨2, "print \x7b"⟩, ⟨3, "print a \x7d"⟩]
        [{ kind := .print, line := ["print", "\x7b"], lineNo := 2
           expression := { left := "\x7b" } },
         { kind := .print, line := ["print", "a", "\x7d"], lineNo := 3
           expression := { left := "a", middle := "\x7d" } }] :=
      .plain (by decide +kernel)
        (parseLine_eq_ok_iff.mpr ⟨.print, _, rfl, rfl, rfl⟩) rfl
        (.plain (by decide +kernel)
          (parseLine_eq_ok_iff.mpr ⟨.print, _, rfl, rfl, rfl⟩) rfl .nil)
    have hafter : Parses [⟨5, "print c \x7d"⟩]
        [{ kind := .print, line := ["print", "c", "\x7d"], lineNo := 5
           expression := { left := "c", middle := "\x7d" } }] :=
      .plain (by decide +kernel)
        (parseLine_eq_ok_iff.mpr ⟨.print, _, rfl, rfl, rfl⟩) rfl .nil
    have hparse : parseProgram closingMarks [] = .ok ⟨_, .ofList []⟩ :=
      parseProgram_of_branchOnFlag rfl hinside hafter
    refine ⟨_, hparse, (parsed_program_keeps_lines hparse).1.trans ?_⟩
    decide +kernel
  · have hblank : Parses [⟨2, ""⟩] [] := .blank rfl .nil
    have hparse : parseProgram closedApart [] = .ok ⟨_, .ofList []⟩ :=
      parseProgram_of_branchOnFlag rfl hblank .nil
    exact ⟨_, hparse, (parsed_program_keeps_lines hparse).2 (by decide +kernel)⟩

end LineScript
