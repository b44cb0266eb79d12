/-
Line numbers are those of the source.  Comments and blank lines are left out and
the bodies of blocks are cut off and parsed on their own, but the lines keep the
numbers that they got in the source text.  So the statements of a parsed program,
read in pre-order, are some of the source lines in their order, and the number of
a statement leads back to the physical line with its tokens.
-/
import LineScript.Proofs.ParseRelation
import LineScript.Proofs.ReachableCode
import LineScript.Proofs.WordPieces

namespace LineScript

mutual

/-- A statement and behind it those of its body, at every depth. -/
def Statement.preorder : Statement → List Statement
  | ⟨kind, line, lineNo, expression, body, second⟩ =>
    ⟨kind, line, lineNo, expression, body, second⟩ :: preorder body

/-- The statements at every depth, each of them in front of its body and both in
front of the next one. -/
def preorder : List Statement → List Statement
  | [] => []
  | statement :: later => statement.preorder ++ preorder later

end

@[simp]
theorem preorder_nil : preorder [] = [] := by
  rw [preorder]

theorem preorder_cons (statement : Statement) (later : List Statement) :
    preorder (statement :: later) =
      statement :: (preorder statement.body ++ preorder later) := by
  rw [preorder]
  cases statement
  rw [Statement.preorder]
  rfl

/-- The pre-order leaves no statement out. -/
theorem Within.mem_preorder {statements : List Statement}
    {statement : Statement} (hwithin : Within statements statement) :
    statement ∈ preorder statements := by
  match statements with
  | [] => exact absurd hwithin (not_within_nil statement)
  | first :: later =>
      have hsmaller := sizeOf_body_lt first
      rw [preorder_cons]
      rcases hwithin.of_cons with rfl | hinside | hlater
      · exact List.mem_cons_self
      · have hbody := hinside.mem_preorder
        exact List.mem_cons_of_mem _ (List.mem_append_left _ hbody)
      · have hbehind := hlater.mem_preorder
        exact List.mem_cons_of_mem _ (List.mem_append_right _ hbehind)
termination_by sizeOf statements
decreasing_by all_goals simp only [List.cons.sizeOf_spec]; omega

/-- The number and the tokens of the line of a statement. -/
def Statement.numberedTokens (statement : Statement) : Nat × List String :=
  (statement.lineNo, statement.line)

/-- The number and the tokens of a line. -/
def SourceLine.numberedTokens (line : SourceLine) : Nat × List String :=
  (line.number, line.tokens)

theorem numberedTokens_of_parseLine {line : SourceLine}
    {statement : Statement} (hline : parseLine line = .ok statement) :
    statement.numberedTokens = line.numberedTokens ∧ statement.body = [] := by
  obtain ⟨kind, expression, _, _, rfl⟩ := parseLine_eq_ok_iff.mp hline
  exact ⟨rfl, rfl⟩

/-- The statements of lines stand on some of these, in the order of the lines. -/
theorem Parses.numberedTokens_sublist {lines : List SourceLine}
    {statements : List Statement} (hparses : Parses lines statements) :
    ((preorder statements).map Statement.numberedTokens).Sublist
      (lines.map SourceLine.numberedTokens) := by
  induction hparses with
  | nil => simp
  | blank _ _ ih => exact ih.cons _
  | plain _ hline _ _ ih =>
      obtain ⟨hnumbered, hbody⟩ := numberedTokens_of_parseLine hline
      rw [preorder_cons, hbody, preorder_nil, List.nil_append, List.map_cons,
        List.map_cons, hnumbered]
      exact ih.cons_cons _
  | @block line later inside after statement body rest _ hline _ hsplit _ _
      ihBody ihRest =>
      obtain ⟨hnumbered, _⟩ := numberedTokens_of_parseLine hline
      obtain ⟨closing, _, rfl⟩ := eq_append_of_splitBody hsplit
      have hfirst : ({ statement with body } : Statement).numberedTokens =
          line.numberedTokens := hnumbered
      rw [preorder_cons, List.map_cons, List.map_cons, hfirst, List.map_append,
        List.map_append, List.map_cons]
      -- The closing line is the only one that no statement stands on.
      exact (ihBody.append (ihRest.cons _)).cons_cons _

/-- Every statement, at every depth, stands on one of the lines. -/
theorem Parses.exists_line {lines : List SourceLine}
    {statements : List Statement} (hparses : Parses lines statements)
    {statement : Statement} (hwithin : Within statements statement) :
    ∃ line ∈ lines, line.number = statement.lineNo ∧
      line.tokens = statement.line := by
  have hplaced := hparses.numberedTokens_sublist.subset
    (List.mem_map_of_mem hwithin.mem_preorder)
  obtain ⟨line, hline, hnumbered⟩ := List.mem_map.mp hplaced
  exact ⟨line, hline, Prod.mk.inj hnumbered⟩

section Numbers

theorem numbers_numberFrom (first : Nat) (texts : List String) :
    (numberFrom first texts).map SourceLine.number =
      List.range' first texts.length := by
  induction texts generalizing first with
  | nil => rfl
  | cons text later ih =>
      rw [numberFrom, List.map_cons, ih, List.length_cons, List.range'_succ]

/-- Leaving lines out keeps the numbers in order. -/
theorem numbers_sourceLines_increase (source : String) :
    ((sourceLines source).map SourceLine.number).Pairwise (· < ·) := by
  have hall : ((numberFrom 1 ((physicalLines source).map
      dropCarriageReturn)).map SourceLine.number).Pairwise (· < ·) := by
    rw [numbers_numberFrom]
    exact List.pairwise_lt_range' 1
  exact hall.sublist (List.filter_sublist.map _)

theorem getElem?_numberFrom (first : Nat) (texts : List String)
    (place : Nat) :
    (numberFrom first texts)[place]? =
      texts[place]?.map fun text => ⟨first + place, text⟩ := by
  induction texts generalizing first place with
  | nil => rfl
  | cons text later ih =>
      cases place with
      | zero => rfl
      | succ before =>
          rw [numberFrom, List.getElem?_cons_succ, List.getElem?_cons_succ, ih,
            Nat.add_assoc, Nat.add_comm 1]

end Numbers

/-- The physical line with the given number, counted from one. -/
def physicalLine? (source : String) (number : Nat) : Option String :=
  match number with
  | 0 => none
  | before + 1 => (physicalLines source)[before]?

/-- A line that carries code is the physical line with its number, without the
carriage return at the end. -/
theorem exists_physicalLine {source : String} {line : SourceLine}
    (hline : line ∈ sourceLines source) :
    ∃ physical, physicalLine? source line.number = some physical ∧
      dropCarriageReturn physical = line.text ∧ line.isCode = true := by
  obtain ⟨hnumbered, hcode⟩ := List.mem_filter.mp hline
  obtain ⟨place, hplace⟩ := List.mem_iff_getElem?.mp hnumbered
  rw [getElem?_numberFrom, List.getElem?_map] at hplace
  obtain ⟨text, htext, rfl⟩ := Option.map_eq_some_iff.mp hplace
  obtain ⟨physical, hphysical, rfl⟩ := Option.map_eq_some_iff.mp htext
  refine ⟨physical, ?_, rfl, hcode⟩
  rw [Nat.add_comm]
  exact hphysical

/-- What is dropped at the end of a line is one carriage return or nothing. -/
theorem toList_dropCarriageReturn (line : String) :
    line.toList = (dropCarriageReturn line).toList ∨
      line.toList = (dropCarriageReturn line).toList ++ ['\r'] := by
  unfold dropCarriageReturn
  split
  · next front hreverse =>
    have hline := congrArg List.reverse hreverse
    rw [List.reverse_reverse, List.reverse_cons] at hline
    exact Or.inr (by rw [hline, String.toList_ofList])
  · exact Or.inl rfl

theorem words_dropCarriageReturn (line : String) :
    words (dropCarriageReturn line) = words line := by
  unfold words
  rcases toList_dropCarriageReturn line with hsame | hreturn
  · rw [hsame]
  · rw [hreturn, charWords_concat (by decide)]

/-- A carriage return is not the first character of a comment. -/
theorem head?_dropCarriageReturn {line : String}
    (hhead : (dropCarriageReturn line).toList.head? ≠ some '#') :
    line.toList.head? ≠ some '#' := by
  rcases toList_dropCarriageReturn line with hsame | hreturn
  · rwa [hsame]
  · rw [hreturn, List.head?_append]
    cases hfirst : (dropCarriageReturn line).toList.head? with
    | none => simp
    | some first => simpa [hfirst] using hhead

/-- The numbers of a parsed program increase strictly in pre-order.  At the number
of each statement, at every depth, the source has a line that is no comment and
has exactly the tokens of the statement. -/
theorem parsed_numbers_are_faithful {source : String}
    {arguments : List String} {program : Program}
    (hparse : parseSource source arguments = .ok program) :
    ((preorder program.statements).map Statement.lineNo).Pairwise (· < ·) ∧
      ∀ statement, Within program.statements statement →
        ∃ physical, physicalLine? source statement.lineNo = some physical ∧
          physical.toList.head? ≠ some '#' ∧
          words physical = statement.line := by
  have hparses : Parses (sourceLines source) program.statements :=
    parses_of_parseProgram hparse
  constructor
  · have hnumbers := hparses.numberedTokens_sublist.map Prod.fst
    rw [List.map_map, List.map_map] at hnumbers
    exact (numbers_sourceLines_increase source).sublist hnumbers
  · intro statement hwithin
    obtain ⟨line, hline, hnumber, htokens⟩ := hparses.exists_line hwithin
    obtain ⟨physical, hphysical, htext, hcode⟩ := exists_physicalLine hline
    have hcomment : line.text.toList.head? ≠ some '#' := by
      simp only [SourceLine.isCode, Bool.and_eq_true, bne_iff_ne] at hcode
      exact hcode.1
    rw [← htext] at hcomment
    rw [hnumber] at hphysical
    refine ⟨physical, hphysical, head?_dropCarriageReturn hcomment, ?_⟩
    rw [← htokens, SourceLine.tokens, ← htext, words_dropCarriageReturn]

/-- A loop behind a comment, with a blank line and a statement in its body and
carriage returns at the ends of some lines. -/
def commentedLoop : String :=
  "# count\r\nwhile flag \x7b\r\n\r\n  print a\n\x7d\nreturn"

/-- The parsed program. -/
def commentedLoopProgram : Program where
  statements :=
    [{ kind := .loop, line := ["while", "flag", "\x7b"], lineNo := 2
       expression := { left := "flag" }
       body := [{ kind := .print, line := ["print", "a"], lineNo := 4
                  expression := { left := "a" } }] },
      { kind := .leave, line := ["return"], lineNo := 6 }]
  arguments := .ofList []

theorem parseSource_commentedLoop :
    parseSource commentedLoop [] = .ok commentedLoopProgram := by
  have hlines : sourceLines commentedLoop =
      [⟨2, "while flag \x7b"⟩, ⟨4, "  print a"⟩, ⟨5, "\x7d"⟩,
        ⟨6, "return"⟩] := by decide +kernel
  have hbody : Parses [⟨4, "  print a"⟩]
      [{ kind := .print, line := ["print", "a"], lineNo := 4
         expression := { left := "a" } }] :=
    .plain (by decide +kernel)
      (parseLine_eq_ok_iff.mpr ⟨.print, { left := "a" }, rfl, rfl, rfl⟩) rfl .nil
  have hrest : Parses [⟨6, "return"⟩]
      [{ kind := .leave, line := ["return"], lineNo := 6 }] :=
    .plain (by decide +kernel)
      (parseLine_eq_ok_iff.mpr ⟨.leave, {}, rfl, rfl, rfl⟩) rfl .nil
  have hparses : Parses (sourceLines commentedLoop)
      commentedLoopProgram.statements := by
    rw [hlines]
    exact .block (by decide +kernel)
      (parseLine_eq_ok_iff.mpr ⟨.loop, { left := "flag" }, rfl, rfl, rfl⟩) rfl
      rfl hbody hrest
  rw [parseSource, parseProgram, parseStatements_eq_ok_iff.mpr hparses]
  rfl

/-- The statement inside the loop is on the fourth line of the source. -/
theorem commentedLoop_numbers :
    parseSource commentedLoop [] = .ok commentedLoopProgram ∧
      (preorder commentedLoopProgram.statements).map Statement.lineNo =
        [2, 4, 6] ∧
      ((preorder commentedLoopProgram.statements).map
        Statement.lineNo).Pairwise (· < ·) ∧
      ∃ physical, physicalLine? commentedLoop 4 = some physical ∧
        words physical = ["print", "a"] := by
  obtain ⟨hincrease, hlines⟩ :=
    parsed_numbers_are_faithful parseSource_commentedLoop
  have hinner : Within commentedLoopProgram.statements
      { kind := .print, line := ["print", "a"], lineNo := 4
        expression := { left := "a" } } :=
    .inside (.here List.mem_cons_self) List.mem_cons_self
  obtain ⟨physical, hphysical, _, hwords⟩ := hlines _ hinner
  exact ⟨parseSource_commentedLoop, rfl, hincrease, physical, hphysical, hwords⟩

end LineScript
