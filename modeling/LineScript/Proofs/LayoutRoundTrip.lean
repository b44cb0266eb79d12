/-
What is written out parses back.  Statements are written on lines, with a closing
line behind every body, and the lines are numbered from one.  The parser finds the
end of a body by counting the marks at the ends of the lines, and it counts right
because the lines of a body are balanced.  So it gives the same statements back,
each with the number of the line that it was written on.
-/
import LineScript.Proofs.ProgramLayout
import LineScript.Proofs.WordPieces

namespace LineScript

/-- Lines on which every body is closed, and nothing else is. -/
inductive Balanced : List SourceLine → Prop
  | nil : Balanced []
  | plain {line : SourceLine} {later : List SourceLine} :
    line.lastToken? ≠ some Word.blockOpen →
      line.lastToken? ≠ some Word.blockClose → Balanced later →
      Balanced (line :: later)
  | block {opening closing : SourceLine} {inside later : List SourceLine} :
    opening.lastToken? = some Word.blockOpen → Balanced inside →
      closing.lastToken? = some Word.blockClose → Balanced later →
      Balanced (opening :: (inside ++ closing :: later))

/-- Balanced lines never close the body that they stand in. -/
theorem Balanced.splitBody_append {lines : List SourceLine}
    (hbalanced : Balanced lines) (nested : Nat) (behind : List SourceLine) :
    splitBody nested (lines ++ behind) =
      (splitBody nested behind).map fun split => (lines ++ split.1, split.2) := by
  induction hbalanced generalizing nested behind with
  | nil => simp
  | plain hopen hclose _ ih =>
      rw [List.cons_append, splitBody_plain hopen hclose, ih, Option.map_map]
      rfl
  | @block opening closing inside later hopen _ hclose _ ihInside ihLater =>
      -- The count goes up by one at the opening line, so the inner lines are
      -- passed over at that count and the closing line takes it back.
      rw [List.cons_append, List.append_assoc, List.cons_append,
        splitBody_opening hopen, ihInside, splitBody_closing hclose, ihLater]
      simp [Option.map_map, Function.comp_def]

theorem Balanced.splitBody_eq {lines : List SourceLine}
    (hbalanced : Balanced lines) {closing : SourceLine}
    (hclosing : closing.lastToken? = some Word.blockClose)
    (behind : List SourceLine) :
    splitBody 0 (lines ++ closing :: behind) = some (lines, behind) := by
  rw [hbalanced.splitBody_append, splitBody_end hclosing]
  simp

theorem numberFrom_append (first : Nat) (front back : List String) :
    numberFrom first (front ++ back) =
      numberFrom first front ++ numberFrom (first + front.length) back := by
  induction front generalizing first with
  | nil => rfl
  | cons text later ih =>
      rw [List.cons_append, numberFrom, numberFrom, ih, List.length_cons,
        Nat.add_assoc, Nat.add_comm 1]
      rfl

theorem lastToken?_blockClose (number : Nat) :
    SourceLine.lastToken? ⟨number, Word.blockClose⟩ = some Word.blockClose := by
  have htokens : words Word.blockClose = [Word.blockClose] := by decide +kernel
  rw [SourceLine.lastToken?, SourceLine.tokens, htokens]
  rfl

theorem getLast?_of_expectBlockOpen {kind : StatementKind}
    {tokens : List String} {done : Unit}
    (hexpect : expectBlockOpen kind tokens = .ok done) :
    tokens.getLast? = some Word.blockOpen := by
  unfold expectBlockOpen at hexpect
  split at hexpect
  · next hlast => simpa [endsWithBlockOpen] using hlast
  · contradiction

/-- The shape of a block line has the opening mark at the end. -/
theorem getLast?_of_isBlock {kind : StatementKind} {tokens : List String}
    {expression : Expression} (hblock : kind.isBlock = true)
    (hslots : operandSlots kind tokens = .ok expression) :
    tokens.getLast? = some Word.blockOpen := by
  obtain ⟨_, _, hshape⟩ := bind_eq_ok_iff.mp hslots
  cases kind with
  | branch | otherwise | loop =>
      obtain ⟨_, hexpect, _⟩ := bind_eq_ok_iff.mp hshape
      exact getLast?_of_expectBlockOpen hexpect
  | define =>
      obtain ⟨_, _, hshape⟩ := bind_eq_ok_iff.mp hshape
      obtain ⟨_, hexpect, _⟩ := bind_eq_ok_iff.mp hshape
      exact getLast?_of_expectBlockOpen hexpect
  | _ => contradiction

/-- The lines of statements as texts. -/
def renderedLines (statements : List Statement) : List String :=
  layOut Statement.toSource Word.blockClose statements

mutual

/-- A statement whose line has the given number; the lines of its body follow. -/
def Statement.numberedFrom (first : Nat) : Statement → Statement
  | ⟨kind, line, _, expression, body, second⟩ =>
    { kind, line, expression, second
      lineNo := first
      body := numberStatements (first + 1) body }

/-- Statements that stand on consecutive lines. -/
def numberStatements (first : Nat) : List Statement → List Statement
  | [] => []
  | statement :: later =>
    statement.numberedFrom first ::
      numberStatements (first + (renderedLines [statement]).length) later

end

/-- The parser accepts the line of a statement as this statement. -/
structure Statement.Accepted (statement : Statement) : Prop where
  words : ∀ token ∈ statement.line, IsWord token
  kind : classify statement.line = .ok statement.kind
  slots : operandSlots statement.kind statement.line = .ok statement.expression

/-- Statements that can be written out: every line is accepted, only statements
that open a body have one, and no other line ends like an opening or a closing
one. -/
inductive Writable : List Statement → Prop
  | nil : Writable []
  | plain {statement : Statement} {later : List Statement} :
    statement.Accepted → statement.opensBody = false →
      statement.body = [] → statement.second = [] →
      statement.line.getLast? ≠ some Word.blockOpen →
      statement.line.getLast? ≠ some Word.blockClose →
      Writable later → Writable (statement :: later)
  | block {statement : Statement} {later : List Statement} :
    statement.Accepted → statement.opensBody = true →
      statement.second = [] → Writable statement.body →
      Writable later → Writable (statement :: later)

section Numbered

variable {statement : Statement} (first : Nat) (later : List Statement)

theorem numberFrom_renderedLines_plain
    (hopens : statement.opensBody = false) :
    numberFrom first (renderedLines (statement :: later)) =
      ⟨first, statement.toSource⟩ ::
        numberFrom (first + 1) (renderedLines later) := by
  rw [renderedLines, layOut_plain _ _ hopens, numberFrom]
  rfl

theorem numberFrom_renderedLines_block
    (hopens : statement.opensBody = true) :
    numberFrom first (renderedLines (statement :: later)) =
      ⟨first, statement.toSource⟩ ::
        (numberFrom (first + 1) (renderedLines statement.body) ++
          ⟨first + 1 + (renderedLines statement.body).length,
            Word.blockClose⟩ ::
          numberFrom (first + 1 + (renderedLines statement.body).length + 1)
            (renderedLines later)) := by
  rw [renderedLines, layOut_block _ _ hopens, numberFrom, numberFrom_append,
    numberFrom]
  rfl

theorem numberedFrom_eq (statement : Statement) :
    statement.numberedFrom first =
      { statement with
        lineNo := first
        body := numberStatements (first + 1) statement.body } := by
  cases statement
  rw [Statement.numberedFrom]

theorem numberStatements_plain (hopens : statement.opensBody = false) :
    numberStatements first (statement :: later) =
      statement.numberedFrom first :: numberStatements (first + 1) later := by
  rw [numberStatements, renderedLines, layOut_plain _ _ hopens]
  rfl

theorem numberStatements_block (hopens : statement.opensBody = true) :
    numberStatements first (statement :: later) =
      statement.numberedFrom first ::
        numberStatements
          (first + 1 + (renderedLines statement.body).length + 1) later := by
  have hcount : (renderedLines [statement]).length =
      1 + ((renderedLines statement.body).length + 1) := by
    rw [renderedLines, layOut_block _ _ hopens]
    simp [renderedLines, Nat.add_comm]
  rw [numberStatements, hcount, Nat.add_assoc, Nat.add_assoc]

end Numbered

namespace Statement

theorem tokens_toSource {statement : Statement}
    (haccepted : statement.Accepted) (number : Nat) :
    SourceLine.tokens ⟨number, statement.toSource⟩ = statement.line :=
  words_intercalate haccepted.words

theorem lastToken?_toSource {statement : Statement}
    (haccepted : statement.Accepted) (number : Nat) :
    SourceLine.lastToken? ⟨number, statement.toSource⟩ =
      statement.line.getLast? := by
  rw [SourceLine.lastToken?, tokens_toSource haccepted]

theorem tokens_toSource_ne_nil {statement : Statement}
    (haccepted : statement.Accepted) (number : Nat) :
    SourceLine.tokens ⟨number, statement.toSource⟩ ≠ [] := by
  rw [tokens_toSource haccepted]
  intro hempty
  have hkind := haccepted.kind
  rw [hempty] at hkind
  contradiction

/-- The line of a statement is parsed to that statement with the number of the
line, apart from its body. -/
theorem parseLine_toSource {statement : Statement}
    (haccepted : statement.Accepted) (hsecond : statement.second = [])
    (number : Nat) :
    parseLine ⟨number, statement.toSource⟩ =
      .ok { statement with lineNo := number, body := [] } := by
  rw [parseLine_eq_ok_iff, tokens_toSource haccepted]
  refine ⟨statement.kind, statement.expression, haccepted.kind,
    haccepted.slots, ?_⟩
  rw [hsecond]

/-- Statements with a body have the opening mark at the end of their lines. -/
theorem getLast?_of_opensBody {statement : Statement}
    (haccepted : statement.Accepted) (hopens : statement.opensBody = true) :
    statement.line.getLast? = some Word.blockOpen := by
  simp only [opensBody, LineScript.opensBody, Bool.or_eq_true,
    Bool.and_eq_true, endsWithBlockOpen, decide_eq_true_eq] at hopens
  rcases hopens with hblock | ⟨_, hlast⟩
  · exact getLast?_of_isBlock hblock haccepted.slots
  · exact hlast

/-- A closing line is no statement. -/
theorem toSource_ne_blockClose {statement : Statement}
    (haccepted : statement.Accepted) :
    statement.toSource ≠ Word.blockClose := by
  intro hsource
  have htokens := tokens_toSource haccepted 0
  rw [hsource] at htokens
  have hline : statement.line = [Word.blockClose] := by
    rw [← htokens]
    decide +kernel
  have hkind := haccepted.kind
  have hslots := haccepted.slots
  rw [hline] at hkind hslots
  have hclose : classify [Word.blockClose] = .ok .blockClose := rfl
  rw [hclose, Except.ok.injEq] at hkind
  rw [← hkind] at hslots
  contradiction

end Statement

/-- Written statements are balanced. -/
theorem Writable.balanced {statements : List Statement}
    (hwritable : Writable statements) (first : Nat) :
    Balanced (numberFrom first (renderedLines statements)) := by
  induction hwritable generalizing first with
  | nil => rw [renderedLines, layOut_nil]; exact .nil
  | plain haccepted hopens _ _ hopen hclose _ ih =>
      rw [numberFrom_renderedLines_plain _ _ hopens]
      refine .plain ?_ ?_ (ih (first + 1))
      · rw [Statement.lastToken?_toSource haccepted]
        exact hopen
      · rw [Statement.lastToken?_toSource haccepted]
        exact hclose
  | block haccepted hopens _ _ _ ihBody ihLater =>
      rw [numberFrom_renderedLines_block _ _ hopens]
      refine .block ?_ (ihBody (first + 1)) (lastToken?_blockClose _) (ihLater _)
      rw [Statement.lastToken?_toSource haccepted]
      exact Statement.getLast?_of_opensBody haccepted hopens

theorem Writable.parses {statements : List Statement}
    (hwritable : Writable statements) (first : Nat) :
    Parses (numberFrom first (renderedLines statements))
      (numberStatements first statements) := by
  induction hwritable generalizing first with
  | nil =>
      rw [renderedLines, layOut_nil, numberStatements]
      exact .nil
  | @plain statement later haccepted hopens hbody hsecond _ _ _ ih =>
      have hline := Statement.parseLine_toSource haccepted hsecond first
      have htokens := Statement.tokens_toSource_ne_nil haccepted first
      rw [numberFrom_renderedLines_plain _ _ hopens,
        numberStatements_plain _ _ hopens, numberedFrom_eq, hbody,
        numberStatements]
      exact .plain htokens hline hopens (ih (first + 1))
  | @block statement later haccepted hopens hsecond hbody _ ihBody ihLater =>
      have hline := Statement.parseLine_toSource haccepted hsecond first
      have htokens := Statement.tokens_toSource_ne_nil haccepted first
      rw [numberFrom_renderedLines_block _ _ hopens,
        numberStatements_block _ _ hopens, numberedFrom_eq]
      refine .block htokens hline hopens ?_ (ihBody (first + 1)) (ihLater _)
      -- The body is balanced, so the count first falls below zero at its own
      -- closing line.
      exact (hbody.balanced (first + 1)).splitBody_eq
        (lastToken?_blockClose _) _

/-- The line of a statement, with the number that the statement carries. -/
def Statement.ownLine (statement : Statement) : SourceLine :=
  ⟨statement.lineNo, statement.toSource⟩

/-- A line that is not a closing one. -/
def openLine? (line : SourceLine) : Option SourceLine :=
  if line.text = Word.blockClose then none else some line

theorem openLine?_toSource {statement : Statement}
    (haccepted : statement.Accepted) (number : Nat) :
    openLine? ⟨number, statement.toSource⟩ =
      some ⟨number, statement.toSource⟩ :=
  if_neg (Statement.toSource_ne_blockClose haccepted)

/-- Line by line, the numbers that the statements carry are those of the lines
that they are written on. -/
theorem Writable.layOut_numbered {statements : List Statement}
    (hwritable : Writable statements) (first : Nat) :
    layOut (fun statement => some statement.ownLine) none
        (numberStatements first statements) =
      (numberFrom first (renderedLines statements)).map openLine? := by
  induction hwritable generalizing first with
  | nil => rw [renderedLines, layOut_nil, numberStatements, layOut_nil]; rfl
  | @plain statement later haccepted hopens _ _ _ _ _ ih =>
      have hnumbered : (statement.numberedFrom first).opensBody = false := by
        rw [numberedFrom_eq]
        exact hopens
      rw [numberStatements_plain _ _ hopens, layOut_plain _ _ hnumbered, ih,
        numberedFrom_eq, numberFrom_renderedLines_plain _ _ hopens,
        List.map_cons, openLine?_toSource haccepted]
      rfl
  | @block statement later haccepted hopens _ _ _ ihBody ihLater =>
      have hnumbered : (statement.numberedFrom first).opensBody = true := by
        rw [numberedFrom_eq]
        exact hopens
      rw [numberStatements_block _ _ hopens, layOut_block _ _ hnumbered, ihLater,
        numberedFrom_eq, ihBody, numberFrom_renderedLines_block _ _ hopens,
        List.map_cons, List.map_append, List.map_cons,
        openLine?_toSource haccepted]
      rfl

/-- Written statements parse back to themselves, and each carries the number of
the line it is written on. -/
theorem parseProgram_renderedLines {statements : List Statement}
    (hwritable : Writable statements) (arguments : List String) :
    parseProgram (numberFrom 1 (renderedLines statements)) arguments =
        .ok ⟨numberStatements 1 statements, .ofList arguments⟩ ∧
      layOut (fun statement => some statement.ownLine) none
          (numberStatements 1 statements) =
        (numberFrom 1 (renderedLines statements)).map openLine? := by
  refine ⟨?_, hwritable.layOut_numbered 1⟩
  rw [parseProgram, parseStatements_eq_ok_iff.mpr (hwritable.parses 1)]
  rfl

/-- A loop around a call with a body of its own, and a statement behind it. -/
def nestedLoop : List Statement :=
  [{ kind := .loop, line := ["while", "i", "<", "3", "\x7b"], lineNo := 0
     expression := ⟨"i", "<", "3"⟩
     body :=
      [{ kind := .print, line := ["print", "i"], lineNo := 0
         expression := { left := "i" } },
        { kind := .call, line := ["call", "f", "\x7b"], lineNo := 0 }] },
    { kind := .leave, line := ["return"], lineNo := 0 }]

theorem nestedLoop_parses_back :
    Writable nestedLoop ∧
    ∃ program,
      parseProgram
        (numberFrom 1 ["while i < 3 \x7b", "print i", "call f \x7b", "\x7d",
          "\x7d", "return"]) ["a"] = .ok program ∧
      program.statements.map Statement.lineNo = [1, 6] ∧
      (program.statements.flatMap Statement.body).map Statement.lineNo =
        [2, 3] := by
  have hcall : Writable
      [{ kind := .call, line := ["call", "f", "\x7b"], lineNo := 0 }] :=
    .block ⟨by decide +kernel, rfl, rfl⟩ rfl rfl .nil .nil
  have hwritable : Writable nestedLoop :=
    .block ⟨by decide +kernel, rfl, rfl⟩ rfl rfl
      (.plain ⟨by decide +kernel, rfl, rfl⟩ rfl rfl rfl (by decide) (by decide)
        hcall)
      (.plain ⟨by decide +kernel, rfl, rfl⟩ rfl rfl rfl (by decide) (by decide)
        .nil)
  refine ⟨hwritable, _, (parseProgram_renderedLines hwritable ["a"]).1, ?_, ?_⟩
  · decide +kernel
  · decide +kernel

end LineScript
