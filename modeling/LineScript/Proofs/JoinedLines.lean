/-
Programs as one source text.  Lines that carry code and are joined by line feeds
are the source lines of the joined text, with consecutive numbers.  What
statements are written on are such lines, unless one starts with the comment
sign, so statements parse back from the text that they are written as.
-/
import LineScript.Proofs.LayoutRoundTrip

namespace LineScript

/-- A line that carries code and has no line break of any kind. -/
structure CodeLine (line : String) : Prop where
  unbroken : ∀ c ∈ line.toList, c ≠ '\n' ∧ c ≠ '\r'
  noComment : line.toList.head? ≠ some '#'
  tokens : words line ≠ []

theorem dropCarriageReturn_of_unbroken {line : String}
    (hunbroken : ∀ c ∈ line.toList, c ≠ '\n' ∧ c ≠ '\r') :
    dropCarriageReturn line = line := by
  unfold dropCarriageReturn
  split
  · next front hreverse =>
    have hmem : '\r' ∈ line.toList.reverse := by
      rw [hreverse]
      exact List.mem_cons_self
    exact absurd rfl (hunbroken '\r' (List.mem_reverse.mp hmem)).2
  · rfl

theorem physicalLines_intercalate {lines : List String} (hnonempty : lines ≠ [])
    (hunbroken : ∀ line ∈ lines, ∀ c ∈ line.toList, c ≠ '\n') :
    physicalLines ("\n".intercalate lines) = lines := by
  have hcut :
      pieces (· == '\n') (['\n'].intercalate (lines.map String.toList)) =
        lines.map String.toList := by
    refine pieces_intercalate rfl (by simpa using hnonempty) ?_
    intro part hpart c hc
    obtain ⟨line, hline, rfl⟩ := List.mem_map.mp hpart
    simpa using hunbroken line hline c hc
  have hjoined : ("\n".intercalate lines).toList =
      ['\n'].intercalate (lines.map String.toList) := by
    rw [String.toList_intercalate]
    rfl
  rw [physicalLines, hjoined, hcut, List.map_map]
  simp

theorem isCode_of_mem_numberFrom {lines : List String}
    (hlines : ∀ line ∈ lines, CodeLine line) (first : Nat) :
    ∀ line ∈ numberFrom first lines, line.isCode = true := by
  induction lines generalizing first with
  | nil => exact nofun
  | cons line later ih =>
      obtain ⟨hline, hlater⟩ := List.forall_mem_cons.mp hlines
      refine List.forall_mem_cons.mpr ⟨?_, ih hlater (first + 1)⟩
      have htokens := hline.tokens
      have hcomment := hline.noComment
      simp [SourceLine.isCode, SourceLine.tokens, htokens, hcomment]

/-- Lines of code that are joined are the source lines of the joined text. -/
theorem sourceLines_intercalate {lines : List String}
    (hlines : ∀ line ∈ lines, CodeLine line) :
    sourceLines ("\n".intercalate lines) = numberFrom 1 lines := by
  by_cases hempty : lines = []
  · subst hempty
    decide +kernel
  have hphysical : physicalLines ("\n".intercalate lines) = lines := by
    refine physicalLines_intercalate hempty ?_
    exact fun line hline c hc => ((hlines line hline).unbroken c hc).1
  have hkept : lines.map dropCarriageReturn = lines := by
    refine Eq.trans ?_ (List.map_id lines)
    refine List.map_congr_left fun line hline => ?_
    exact dropCarriageReturn_of_unbroken (hlines line hline).unbroken
  rw [sourceLines, hphysical, hkept]
  exact List.filter_eq_self.mpr (isCode_of_mem_numberFrom hlines 1)

/-- The line of a statement is a line of code unless it is a comment. -/
theorem Statement.Accepted.codeLine {statement : Statement}
    (haccepted : statement.Accepted)
    (hcomment : statement.toSource.toList.head? ≠ some '#') :
    CodeLine statement.toSource where
  unbroken := by
    intro c hc
    have hbreak : c = ' ' ∨ isBlank c = false := by
      rw [toSource, String.toList_intercalate] at hc
      rcases mem_of_mem_intercalate hc with hspace | ⟨_, hpart, hmem⟩
      · exact Or.inl hspace
      · obtain ⟨token, htoken, rfl⟩ := List.mem_map.mp hpart
        exact Or.inr ((haccepted.words token htoken).2 c hmem)
    constructor
    · rintro rfl
      exact absurd hbreak (by decide)
    · rintro rfl
      exact absurd hbreak (by decide)
  noComment := hcomment
  tokens := Statement.tokens_toSource_ne_nil haccepted 0

theorem codeLine_blockClose : CodeLine Word.blockClose where
  unbroken := by
    intro c hc
    obtain rfl : c = '\x7d' := by simpa [Word.blockClose] using hc
    decide
  noComment := by decide
  tokens := by decide +kernel

theorem Writable.codeLine_of_mem {statements : List Statement}
    (hwritable : Writable statements)
    (hcomment : ∀ line ∈ renderedLines statements,
      line.toList.head? ≠ some '#') :
    ∀ line ∈ renderedLines statements, CodeLine line := by
  induction hwritable with
  | nil =>
      rw [renderedLines, layOut_nil]
      exact fun _ hline => absurd hline List.not_mem_nil
  | plain haccepted hopens _ _ _ _ _ ih =>
      rw [renderedLines, layOut_plain _ _ hopens] at hcomment ⊢
      obtain ⟨hfirst, hlater⟩ := List.forall_mem_cons.mp hcomment
      exact List.forall_mem_cons.mpr ⟨haccepted.codeLine hfirst, ih hlater⟩
  | block haccepted hopens _ _ _ ihBody ihLater =>
      rw [renderedLines, layOut_block _ _ hopens] at hcomment ⊢
      obtain ⟨hfirst, hrest⟩ := List.forall_mem_cons.mp hcomment
      obtain ⟨hbody, hbehind⟩ := List.forall_mem_append.mp hrest
      obtain ⟨_, hlater⟩ := List.forall_mem_cons.mp hbehind
      refine List.forall_mem_cons.mpr ⟨haccepted.codeLine hfirst, ?_⟩
      refine List.forall_mem_append.mpr ⟨ihBody hbody, ?_⟩
      exact List.forall_mem_cons.mpr ⟨codeLine_blockClose, ihLater hlater⟩

/-- Written statements parse back from the text of their lines. -/
theorem Writable.parseSource_eq {statements : List Statement}
    (hwritable : Writable statements)
    (hcomment : ∀ line ∈ renderedLines statements,
      line.toList.head? ≠ some '#') (arguments : List String) :
    parseSource ("\n".intercalate (renderedLines statements)) arguments =
      .ok ⟨numberStatements 1 statements, .ofList arguments⟩ := by
  rw [parseSource, sourceLines_intercalate (hwritable.codeLine_of_mem hcomment),
    parseProgram, parseStatements_eq_ok_iff.mpr (hwritable.parses 1)]
  rfl

end LineScript
