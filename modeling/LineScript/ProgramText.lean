/-
From source lines to statements.  The body of a block reaches to the line whose
closing mark matches; the depth is counted on the last tokens of the lines
alone, before anything inside the body is parsed.  Bodies and what follows them
are both shorter than the lines they were cut from, so parsing ends.
-/
import LineScript.SourceLine
import LineScript.StatementShape

namespace LineScript

/-- Splits the lines after a block opener into its body and the lines behind
the matching closing line.  `nested` counts the inner blocks that are still
open.  There is no split when the block is never closed. -/
def splitBody : Nat → List SourceLine →
    Option (List SourceLine × List SourceLine)
  | _, [] => none
  | nested, line :: later =>
    if line.lastToken? = some Word.blockClose then
      match nested with
      | 0 => some ([], later)
      | outer + 1 =>
        (splitBody outer later).map fun (body, after) => (line :: body, after)
    else if line.lastToken? = some Word.blockOpen then
      (splitBody (nested + 1) later).map fun (body, after) =>
        (line :: body, after)
    else
      (splitBody nested later).map fun (body, after) => (line :: body, after)

/-- A split loses the closing line only. -/
theorem splitBody_length {nested : Nat} {lines body after : List SourceLine}
    (h : splitBody nested lines = some (body, after)) :
    body.length + after.length + 1 = lines.length := by
  induction lines generalizing nested body with
  | nil => simp [splitBody] at h
  | cons line later ih =>
      have inner {depth : Nat}
          (hmap : (splitBody depth later).map
            (fun split => (line :: split.1, split.2)) = some (body, after)) :
          body.length + after.length + 1 = (line :: later).length := by
        obtain ⟨split, hsplit, heq⟩ := Option.map_eq_some_iff.1 hmap
        obtain ⟨rfl, rfl⟩ := Prod.mk.inj heq
        have := ih hsplit
        simp only [List.length_cons]
        omega
      unfold splitBody at h
      split at h
      · split at h
        · obtain ⟨rfl, rfl⟩ := Prod.mk.inj (Option.some.inj h)
          simp
        · exact inner h
      · split at h
        · exact inner h
        · exact inner h

/-- Attaches the number of a line to what is wrong with it. -/
def atLine {α : Type} (line : Nat) :
    Except ParseCause α → Except ParseError α :=
  Except.mapError fun cause => ⟨cause, line⟩

/-- The statement on a line, without its body. -/
def parseLine (line : SourceLine) : Except ParseError Statement :=
  atLine line.number do
    let kind ← classify line.tokens
    let expression ← operandSlots kind line.tokens
    return { kind, line := line.tokens, lineNo := line.number, expression }

def Statement.opensBody (statement : Statement) : Bool :=
  LineScript.opensBody statement.kind statement.line

/-- Parses lines into statements.  Blank lines are skipped.  The end of a body
is looked for before the body is parsed, and the body is parsed before the
lines behind it. -/
def parseStatements (lines : List SourceLine) :
    Except ParseError (List Statement) :=
  match lines with
  | [] => .ok []
  | line :: later =>
    if line.tokens.isEmpty then
      parseStatements later
    else do
      let statement ← parseLine line
      if statement.opensBody then
        match h : splitBody 0 later with
        | none => .error ⟨.unterminatedBlock, line.number⟩
        | some (inside, after) =>
          have := splitBody_length h
          let body ← parseStatements inside
          let rest ← parseStatements after
          return { statement with body } :: rest
      else
        let rest ← parseStatements later
        return statement :: rest
termination_by lines.length
decreasing_by all_goals simp only [List.length_cons]; omega

/-- Parses lines into a program with the given arguments. -/
def parseProgram (lines : List SourceLine) (arguments : List String) :
    Except ParseError Program := do
  let statements ← parseStatements lines
  return { statements, arguments := .ofList arguments }

/-- Parses a source text into a program with the given arguments. -/
def parseSource (source : String) (arguments : List String) :
    Except ParseError Program :=
  parseProgram (sourceLines source) arguments

end LineScript
