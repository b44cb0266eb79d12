/-
The tokens of an expression text, told from its characters alone.  A token is a
parenthesis, an operator or an operand, and blanks may stand between tokens.  An
operand is a run of characters that goes on as far as it can.  A minus sign is an
operator behind an operand or a closing parenthesis; anywhere else it belongs to
the run right behind it.  A text has these tokens in one way at most, and they are
the lexemes that it is cut into.
-/
import LineScript.Proofs.LexemeReading

namespace LineScript

/-- Operands are made of all characters but blanks, parentheses and the characters
that operators are written with. -/
def InOperand (c : Char) : Prop :=
  isBlank c = false ∧ c ∉ ['(', ')', '+', '-', '*', '/', '%', '^']

/-- A run of operand characters that does not go on into what stands behind it. -/
structure OperandRun (run behind : List Char) : Prop where
  nonempty : run ≠ []
  inside : ∀ c ∈ run, InOperand c
  maximal : ∀ c ∈ behind.head?, ¬ InOperand c

/-- The tokens of a text, from front to back.  `expecting` tells that no operand
and no closing parenthesis stands in front of the text, so that a minus sign there
is not an operator. -/
inductive HasTokens : Bool → List Char → List Lexeme → Prop
  | nil {expecting : Bool} : HasTokens expecting [] []
  | blank {expecting : Bool} {c : Char} {later : List Char}
      {tokens : List Lexeme} :
    isBlank c = true → HasTokens expecting later tokens →
      HasTokens expecting (c :: later) tokens
  | opening {expecting : Bool} {later : List Char} {tokens : List Lexeme} :
    HasTokens true later tokens →
      HasTokens expecting ('(' :: later) (.opening :: tokens)
  | closing {expecting : Bool} {later : List Char} {tokens : List Lexeme} :
    HasTokens false later tokens →
      HasTokens expecting (')' :: later) (.closing :: tokens)
  | operator {expecting : Bool} {op : Operator} {later : List Char}
      {tokens : List Lexeme} :
    (op = .sub → expecting = false) → HasTokens true later tokens →
      HasTokens expecting (op.symbol :: later) (.operator op :: tokens)
  | operand {expecting : Bool} {run behind : List Char}
      {tokens : List Lexeme} :
    OperandRun run behind → HasTokens false behind tokens →
      HasTokens expecting (run ++ behind)
        (.operand (String.ofList run) :: tokens)
  | signed {run behind : List Char} {tokens : List Lexeme} :
    OperandRun run behind → HasTokens false behind tokens →
      HasTokens true ('-' :: (run ++ behind))
        (.operand (String.ofList ('-' :: run)) :: tokens)

/-- The tests of the scanner are those of these characters. -/
theorem inOperand_iff {c : Char} : InOperand c ↔ isOperandChar c = true := by
  rw [isOperandChar_iff, InOperand, Operator.ofChar?, List.find?_eq_none]
  simp [Operator.all, Operator.symbol, @eq_comm _ _ c]

section Runs

variable {run behind : List Char}

theorem OperandRun.isOperandChar (hrun : OperandRun run behind) :
    ∀ c ∈ run, isOperandChar c = true :=
  fun c hc => inOperand_iff.mp (hrun.inside c hc)

theorem OperandRun.stops (hrun : OperandRun run behind) :
    StopsOperand behind := by
  intro c hc
  have hnot := hrun.maximal c hc
  rw [inOperand_iff] at hnot
  exact eq_false_of_ne_true hnot

/-- What is taken off the front of a text is a run, if it is anything. -/
theorem operandRun_span {front text : List Char}
    (hfront : ∀ c ∈ front, isOperandChar c = true)
    (hnonempty : front ++ text.takeWhile isOperandChar ≠ []) :
    OperandRun (front ++ text.takeWhile isOperandChar)
      (text.dropWhile isOperandChar) where
  nonempty := hnonempty
  inside c hc := by
    rw [inOperand_iff]
    rcases List.mem_append.mp hc with hc | hc
    · exact hfront c hc
    · exact isOperandChar_of_mem_takeWhile c hc
  maximal c hc := by
    rw [inOperand_iff]
    have hstops := List.head?_dropWhile_not isOperandChar text
    rw [Option.mem_def.mp hc] at hstops
    simp [hstops]

end Runs

theorem HasTokens.lexemes_eq {expecting : Bool} {text : List Char}
    {tokens : List Lexeme} (htokens : HasTokens expecting text tokens) :
    lexemes expecting text = tokens := by
  induction htokens with
  | nil => rw [lexemes]
  | blank hblank _ ih => rw [lexemes_blank _ _ hblank, ih]
  | opening _ ih => rw [lexemes_opening, ih]
  | closing _ ih => rw [lexemes_closing, ih]
  | operator hplace _ ih => rw [lexemes_operator _ _ hplace, ih]
  | operand hrun _ ih =>
      rw [lexemes_unsigned _ hrun.nonempty hrun.isOperandChar hrun.stops, ih]
  | signed hrun _ ih =>
      rw [lexemes_signed hrun.nonempty hrun.isOperandChar hrun.stops, ih]

/-- The lexemes of a text are its tokens, unless a minus sign stands in the place of
an operand and no operand right behind it. -/
theorem hasTokens_lexemes {expecting : Bool} {text : List Char}
    (hsigns : .danglingSign ∉ lexemes expecting text) :
    HasTokens expecting text (lexemes expecting text) := by
  fun_induction lexemes expecting text with
  | case1 => exact .nil
  | case2 _ c later _ hblank ih => exact .blank hblank (ih hsigns)
  | case3 _ later _ _ ih =>
      exact .opening (ih (List.not_mem_of_not_mem_cons hsigns))
  | case4 _ later _ _ _ ih =>
      exact .closing (ih (List.not_mem_of_not_mem_cons hsigns))
  | case5 _ c later run behind _ hblank hopening hclosing hoperator ih =>
      have hc : ∀ d ∈ [c], isOperandChar d = true := by
        simpa using isOperandChar_iff.mpr
          ⟨by simpa using hblank, hopening, hclosing, hoperator⟩
      have hrun : OperandRun (c :: run) behind :=
        operandRun_span hc (List.cons_ne_nil c run)
      have htext : c :: later = (c :: run) ++ behind := by simp [run, behind]
      rw [htext]
      exact .operand hrun (ih (List.not_mem_of_not_mem_cons hsigns))
  | case6 => simp at hsigns
  | case7 _ c later run behind _ _ _ _ op hoperator hsign hempty ih =>
      have hnonempty : run ≠ [] := by simpa using hempty
      have hrun : OperandRun run behind :=
        operandRun_span (List.forall_mem_nil _) hnonempty
      have htext : later = run ++ behind := by simp [run, behind]
      obtain ⟨rfl, rfl⟩ := hsign
      obtain rfl : c = '-' := (Operator.symbol_of_ofChar? hoperator).symm
      rw [htext]
      exact .signed hrun (ih (List.not_mem_of_not_mem_cons hsigns))
  | case8 expecting c later _ _ _ _ op hoperator hsign ih =>
      obtain rfl := Operator.symbol_of_ofChar? hoperator
      refine .operator ?_ (ih (List.not_mem_of_not_mem_cons hsigns))
      intro hsub
      simpa [hsub] using hsign

/-- Without such a sign, the lexemes of a text are the only tokens that it has. -/
theorem hasTokens_iff_eq_lexemes {expecting : Bool} {text : List Char}
    (hsigns : .danglingSign ∉ lexemes expecting text) {tokens : List Lexeme} :
    HasTokens expecting text tokens ↔ tokens = lexemes expecting text := by
  constructor
  · intro htokens
    exact htokens.lexemes_eq.symm
  · rintro rfl
    exact hasTokens_lexemes hsigns

end LineScript
