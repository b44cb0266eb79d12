/-
Lines that are parsed one part after another.  The search for the end of a body
stops at the closing line, so a part that parses on its own is never read beyond
its end: with more lines behind it, it gives the same statements, and what comes
of the whole is decided by the lines behind it alone.
-/
import LineScript.Proofs.ParseRelation

namespace LineScript

/-- More lines at the end do not change where a body ends. -/
theorem splitBody_append {nested : Nat} {lines body after : List SourceLine}
    (hsplit : splitBody nested lines = some (body, after))
    (more : List SourceLine) :
    splitBody nested (lines ++ more) = some (body, after ++ more) := by
  induction lines generalizing nested body with
  | nil => simp [splitBody] at hsplit
  | cons line later ih =>
      -- The line belongs to the body, and the body goes on behind it.
      have inner {depth : Nat}
          (hmap : (splitBody depth later).map
            (fun split => (line :: split.1, split.2)) = some (body, after)) :
          (splitBody depth (later ++ more)).map
            (fun split => (line :: split.1, split.2)) =
              some (body, after ++ more) := by
        obtain ⟨⟨rest, behind⟩, hrest, heq⟩ := Option.map_eq_some_iff.mp hmap
        obtain ⟨rfl, rfl⟩ := Prod.mk.inj heq
        rw [ih hrest, Option.map_some]
      rw [List.cons_append]
      by_cases hclose : line.lastToken? = some Word.blockClose
      · cases nested with
        | zero =>
            rw [splitBody_end hclose] at hsplit ⊢
            obtain ⟨rfl, rfl⟩ := Prod.mk.inj (Option.some.inj hsplit)
            rfl
        | succ outer =>
            rw [splitBody_closing hclose] at hsplit ⊢
            exact inner hsplit
      · by_cases hopen : line.lastToken? = some Word.blockOpen
        · rw [splitBody_opening hopen] at hsplit ⊢
          exact inner hsplit
        · rw [splitBody_plain hopen hclose] at hsplit ⊢
          exact inner hsplit

theorem map_append_bind_cons {ε α : Type} (result : Except ε (List α))
    (first : α) (front : List α) :
    (result.map (front ++ ·) >>= fun rest => pure (first :: rest)) =
      result.map (first :: front ++ ·) := by
  cases result with
  | error fault => rfl
  | ok later => rfl

/-- The statements of the first part stand in front of what the lines behind it
give. -/
theorem Parses.parseStatements_append {front : List SourceLine}
    {statements : List Statement} (hparses : Parses front statements)
    (back : List SourceLine) :
    parseStatements (front ++ back) =
      (parseStatements back).map (statements ++ ·) := by
  induction hparses with
  | nil =>
      rw [List.nil_append]
      cases parseStatements back with
      | error fault => rfl
      | ok later => rfl
  | blank htokens _ ih =>
      rw [List.cons_append, parseStatements, if_pos (by simp [htokens]), ih]
  | plain htokens hline hopens _ ih =>
      rw [List.cons_append, parseStatements_cons _ htokens, hline]
      simp only [bind, Except.bind, hopens, Bool.false_eq_true, if_false, ih]
      exact map_append_bind_cons _ _ _
  | block htokens hline hopens hsplit hbody _ _ ihRest =>
      rw [List.cons_append, parseStatements_cons _ htokens, hline]
      simp only [bind, Except.bind, hopens, if_true,
        splitBody_append hsplit back, hbody.parseStatements_eq, ihRest]
      exact map_append_bind_cons _ _ _

/-- Where the first part is a program, the whole is one exactly if the lines
behind it are: then their statements follow those of the first part, and otherwise
the whole fails with their error.  The arguments do not matter for this. -/
theorem parseProgram_append {front : List SourceLine} {given : List String}
    {program : Program} (hparse : parseProgram front given = .ok program)
    (back : List SourceLine) (arguments others : List String) :
    parseProgram (front ++ back) arguments =
      (parseProgram back others).map fun later =>
        ⟨program.statements ++ later.statements, .ofList arguments⟩ := by
  obtain ⟨statements, hstatements, hprogram⟩ := bind_eq_ok_iff.mp hparse
  rw [pure_eq_ok_iff] at hprogram
  subst program
  have hparses := parseStatements_eq_ok_iff.mp hstatements
  simp only [parseProgram, hparses.parseStatements_append]
  cases parseStatements back with
  | error fault => rfl
  | ok later => rfl

/-- A loop on lines whose numbers are in no order. -/
def loopLines : List SourceLine :=
  [⟨4, "while flag \x7b"⟩, ⟨9, "print a"⟩, ⟨2, "\x7d"⟩]

/-- The statement that stands on those lines. -/
def printingLoop : Statement where
  kind := .loop
  line := ["while", "flag", "\x7b"]
  lineNo := 4
  expression := { left := "flag" }
  body :=
    [{ kind := .print, line := ["print", "a"], lineNo := 9
       expression := { left := "a" } }]

/-- A statement behind the loop follows it, and a closing mark behind the loop has
nothing to close, although the loop has a body. -/
theorem loopLines_append :
    parseProgram loopLines ["x"] = .ok ⟨[printingLoop], .ofList ["x"]⟩ ∧
    parseProgram (loopLines ++ [⟨1, "return"⟩]) [] =
      .ok ⟨[printingLoop, { kind := .leave, line := ["return"], lineNo := 1 }],
        .ofList []⟩ ∧
    parseProgram (loopLines ++ [⟨7, "\x7d"⟩]) [] =
      .error ⟨.unexpectedBlockMarker "\x7d", 7⟩ := by
  have hbody : Parses [⟨9, "print a"⟩] printingLoop.body :=
    .plain (by decide +kernel)
      (parseLine_eq_ok_iff.mpr ⟨.print, { left := "a" }, rfl, rfl, rfl⟩) rfl .nil
  have hloop : Parses loopLines [printingLoop] :=
    .block (by decide +kernel)
      (parseLine_eq_ok_iff.mpr ⟨.loop, { left := "flag" }, rfl, rfl, rfl⟩) rfl
      rfl hbody .nil
  have hparse : parseProgram loopLines ["x"] =
      .ok ⟨[printingLoop], .ofList ["x"]⟩ := by
    rw [parseProgram, parseStatements_eq_ok_iff.mpr hloop]
    rfl
  have hreturn : Parses [⟨1, "return"⟩]
      [{ kind := .leave, line := ["return"], lineNo := 1 }] :=
    .plain (by decide +kernel)
      (parseLine_eq_ok_iff.mpr ⟨.leave, {}, rfl, rfl, rfl⟩) rfl .nil
  have hclosing : parseStatements [⟨7, "\x7d"⟩] =
      .error ⟨.unexpectedBlockMarker "\x7d", 7⟩ := by
    rw [parseStatements_cons [] (by decide +kernel)]
    rfl
  refine ⟨hparse, ?_, ?_⟩
  · rw [parseProgram_append hparse _ [] [], parseProgram,
      parseStatements_eq_ok_iff.mpr hreturn]
    rfl
  · rw [parseProgram_append hparse _ [] [], parseProgram, hclosing]
    rfl

end LineScript
