/-
Statements laid out on lines again.  A statement stands on a line of its own, and
a body is followed by a closing line.  Lines of a source stand beside these with
their tokens, as far as they have any.
-/
import LineScript.Proofs.ParseRelation

namespace LineScript

section Layout

variable {α : Type} (own : Statement → α) (closing : α)

mutual

/-- The lines of a statement: its own one and, if it opens a body, those of the
body and the closing one. -/
def Statement.laidOut : Statement → List α
  | ⟨kind, line, lineNo, expression, body, second⟩ =>
    own ⟨kind, line, lineNo, expression, body, second⟩ ::
      if LineScript.opensBody kind line then layOut body ++ [closing] else []

/-- The lines of statements, one after another. -/
def layOut : List Statement → List α
  | [] => []
  | statement :: later => statement.laidOut ++ layOut later

end

@[simp]
theorem layOut_nil : layOut own closing [] = [] := by
  rw [layOut]

theorem layOut_cons (statement : Statement) (later : List Statement) :
    layOut own closing (statement :: later) =
      own statement ::
        (if statement.opensBody then
            layOut own closing statement.body ++ [closing]
          else []) ++ layOut own closing later := by
  rw [layOut]
  cases statement
  rw [Statement.laidOut]
  rfl

theorem layOut_plain {statement : Statement}
    (hopens : statement.opensBody = false) (later : List Statement) :
    layOut own closing (statement :: later) =
      own statement :: layOut own closing later := by
  simp [layOut_cons, hopens]

theorem layOut_block {statement : Statement}
    (hopens : statement.opensBody = true) (later : List Statement) :
    layOut own closing (statement :: later) =
      own statement :: (layOut own closing statement.body ++
        closing :: layOut own closing later) := by
  simp [layOut_cons, hopens]

end Layout

/-- The tokens of every line of laid out statements. -/
def tokenLines (statements : List Statement) : List (List String) :=
  layOut Statement.line [Word.blockClose] statements

theorem tokenLines_plain {statement : Statement}
    (hopens : statement.opensBody = false) (later : List Statement) :
    tokenLines (statement :: later) = statement.line :: tokenLines later :=
  layOut_plain _ _ hopens later

theorem tokenLines_block {statement : Statement}
    (hopens : statement.opensBody = true) (later : List Statement) :
    tokenLines (statement :: later) =
      statement.line :: (tokenLines statement.body ++
        [Word.blockClose] :: tokenLines later) :=
  layOut_block _ _ hopens later

/-- The tokens of the lines that are not blank. -/
def sourceTokens (lines : List SourceLine) : List (List String) :=
  (lines.map SourceLine.tokens).filter (· ≠ [])

theorem sourceTokens_blank {line : SourceLine} (htokens : line.tokens = [])
    (later : List SourceLine) :
    sourceTokens (line :: later) = sourceTokens later := by
  simp [sourceTokens, htokens]

theorem sourceTokens_cons {line : SourceLine} (htokens : line.tokens ≠ [])
    (later : List SourceLine) :
    sourceTokens (line :: later) = line.tokens :: sourceTokens later := by
  simp [sourceTokens, htokens]

theorem sourceTokens_append (front back : List SourceLine) :
    sourceTokens (front ++ back) = sourceTokens front ++ sourceTokens back := by
  simp [sourceTokens]

end LineScript
