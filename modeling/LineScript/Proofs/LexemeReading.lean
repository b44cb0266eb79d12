/-
Reading lexemes back.  The lexemes of a text are the text itself, cut between
blanks: what a lexeme is written with stands in the text, with nothing but blanks
in front of it.  So where the lexemes write a tree, the text does.
-/
import LineScript.Proofs.InfixRendering

namespace LineScript

namespace Lexeme

/-- The characters that a lexeme is written with. -/
def chars : Lexeme → List Char
  | opening => ['(']
  | closing => [')']
  | operator op => [op.symbol]
  | operand text => text.toList
  | danglingSign => [Operator.sub.symbol]

/-- Behind this lexeme a minus sign belongs to an operand. -/
def expectsOperand : Lexeme → Bool
  | opening | operator _ => true
  | closing | operand _ | danglingSign => false

/-- An operand is the text of one. -/
def IsFormed (lexeme : Lexeme) : Prop :=
  ∀ text, lexeme = .operand text →
    ∃ operand : OperandText, operand.text = text

end Lexeme

def AllBlank (text : List Char) : Prop :=
  ∀ c ∈ text, isBlank c = true

/-- A run of operand characters, possibly with a sign, is an operand. -/
theorem isFormed_operand {text run : List Char} (hnonempty : run ≠ [])
    (hrun : ∀ c ∈ run, isOperandChar c = true)
    (htext : text = run ∨ text = '-' :: run) :
    (Lexeme.operand (String.ofList text)).IsFormed := by
  rintro _ ⟨rfl⟩
  exact ⟨⟨String.ofList text, run, hnonempty, hrun, by simpa using htext⟩, rfl⟩

theorem isOperandChar_of_mem_takeWhile {text : List Char} :
    ∀ c ∈ text.takeWhile isOperandChar, isOperandChar c = true :=
  List.all_eq_true.mp List.all_takeWhile

theorem allBlank_of_lexemes_eq_nil {expecting : Bool} {text : List Char}
    (hlexemes : lexemes expecting text = []) : AllBlank text := by
  fun_induction lexemes expecting text with
  | case1 => exact nofun
  | case2 _ c later _ hblank ih =>
      exact List.forall_mem_cons.mpr ⟨hblank, ih hlexemes⟩
  | case3 | case4 | case5 | case6 | case7 | case8 => contradiction

/-- The first lexeme stands behind blanks, and the others are those of the text
behind it. -/
theorem exists_of_lexemes_eq_cons {expecting : Bool} {text : List Char}
    {first : Lexeme} {rest : List Lexeme}
    (hlexemes : lexemes expecting text = first :: rest) :
    ∃ blanks behind, AllBlank blanks ∧
      text = blanks ++ (first.chars ++ behind) ∧
      lexemes first.expectsOperand behind = rest ∧ first.IsFormed := by
  fun_induction lexemes expecting text with
  | case1 => contradiction
  | case2 _ c later _ hblank ih =>
      obtain ⟨blanks, behind, hblanks, rfl, hrest, hformed⟩ := ih hlexemes
      have hall : AllBlank (c :: blanks) :=
        List.forall_mem_cons.mpr ⟨hblank, hblanks⟩
      exact ⟨c :: blanks, behind, hall, rfl, hrest, hformed⟩
  | case3 _ later =>
      obtain ⟨rfl, rfl⟩ := List.cons.inj hlexemes
      exact ⟨[], later, nofun, rfl, rfl, nofun⟩
  | case4 _ later =>
      obtain ⟨rfl, rfl⟩ := List.cons.inj hlexemes
      exact ⟨[], later, nofun, rfl, rfl, nofun⟩
  | case5 _ c later run behind _ hblank hopening hclosing hoperator =>
      obtain ⟨rfl, rfl⟩ := List.cons.inj hlexemes
      have hc : isOperandChar c = true :=
        isOperandChar_iff.mpr
          ⟨by simpa using hblank, hopening, hclosing, hoperator⟩
      have hrun : ∀ d ∈ c :: run, isOperandChar d = true :=
        List.forall_mem_cons.mpr ⟨hc, isOperandChar_of_mem_takeWhile⟩
      refine ⟨[], behind, nofun, ?_, rfl,
        isFormed_operand (List.cons_ne_nil c run) hrun (Or.inl rfl)⟩
      simp [Lexeme.chars, run, behind]
  | case6 _ c later _ _ _ _ _ op hoperator hsign =>
      obtain ⟨rfl, rfl⟩ := List.cons.inj hlexemes
      refine ⟨[], later, nofun, ?_, rfl, nofun⟩
      rw [← Operator.symbol_of_ofChar? hoperator, hsign.1]
      rfl
  | case7 _ c later run behind _ _ _ _ op hoperator hsign hrun =>
      obtain ⟨rfl, rfl⟩ := List.cons.inj hlexemes
      have hnonempty : run ≠ [] := by simpa using hrun
      have hc : c = '-' := by
        rw [← Operator.symbol_of_ofChar? hoperator, hsign.1]
        rfl
      subst hc
      refine ⟨[], behind, nofun, ?_, rfl,
        isFormed_operand hnonempty isOperandChar_of_mem_takeWhile (Or.inr rfl)⟩
      simp [Lexeme.chars, run, behind]
  | case8 _ c later _ _ _ _ op hoperator =>
      obtain ⟨rfl, rfl⟩ := List.cons.inj hlexemes
      refine ⟨[], later, nofun, ?_, rfl, nofun⟩
      rw [← Operator.symbol_of_ofChar? hoperator]
      rfl

/-- All operands among the lexemes of a text are operands. -/
theorem isFormed_of_mem_lexemes {expecting : Bool} {text : List Char} :
    ∀ lexeme ∈ lexemes expecting text, lexeme.IsFormed := by
  generalize hparts : lexemes expecting text = parts
  induction parts generalizing expecting text with
  | nil => exact nofun
  | cons first rest ih =>
      obtain ⟨_, behind, _, _, hrest, hformed⟩ :=
        exists_of_lexemes_eq_cons hparts
      exact List.forall_mem_cons.mpr ⟨hformed, ih hrest⟩

namespace ExpressionTree

theorem Infix.blanksBefore {level : Nat} {tree : ExpressionTree}
    {blanks text : List Char} (hblanks : AllBlank blanks)
    (hwritten : tree.Infix level text) : tree.Infix level (blanks ++ text) := by
  induction blanks with
  | nil => exact hwritten
  | cons c later ih =>
      obtain ⟨hc, hlater⟩ := List.forall_mem_cons.mp hblanks
      exact .blankBefore hc (ih hlater)

theorem Infix.blanksAfter {level : Nat} {tree : ExpressionTree}
    {blanks text : List Char} (hwritten : tree.Infix level text)
    (hblanks : AllBlank blanks) : tree.Infix level (text ++ blanks) := by
  induction blanks generalizing text with
  | nil => simpa using hwritten
  | cons c later ih =>
      obtain ⟨hc, hlater⟩ := List.forall_mem_cons.mp hblanks
      have hnext := ih (hwritten.blankAfter hc) hlater
      simpa using hnext

/-- If the lexemes of a text start with those of a tree, the text starts with a
text that writes the tree. -/
theorem InfixLexemes.exists_written {level : Nat} {tree : ExpressionTree}
    {parts rest : List Lexeme} {text : List Char}
    (hparts : tree.InfixLexemes level parts)
    (htext : lexemes true text = parts ++ rest) :
    ∃ front back, text = front ++ back ∧ tree.Infix level front ∧
      lexemes false back = rest := by
  induction hparts generalizing text rest with
  | @leaf _ operand =>
      obtain ⟨blanks, behind, hblanks, rfl, hrest, _⟩ :=
        exists_of_lexemes_eq_cons htext
      exact ⟨blanks ++ operand.text.toList, behind, by simp [Lexeme.chars],
        Infix.leaf.blanksBefore hblanks, hrest⟩
  | @node _ op _ _ _ rightLexemes hlevel _ _ ihleft ihright =>
      rw [List.append_assoc, List.cons_append] at htext
      obtain ⟨leftText, afterLeft, rfl, hleft, hafter⟩ := ihleft htext
      obtain ⟨blanks, behind, hblanks, rfl, hbehind, _⟩ :=
        exists_of_lexemes_eq_cons hafter
      obtain ⟨rightText, back, rfl, hright, hrest⟩ := ihright hbehind
      exact ⟨(leftText ++ blanks) ++ op.symbol :: rightText, back,
        by simp [Lexeme.chars],
        .node hlevel (hleft.blanksAfter hblanks) hright, hrest⟩
  | group _ ih =>
      rw [List.cons_append, List.append_assoc] at htext
      obtain ⟨blanks, inner, hblanks, rfl, hinner, _⟩ :=
        exists_of_lexemes_eq_cons htext
      obtain ⟨innerText, afterInner, rfl, hwritten, hafter⟩ := ih hinner
      obtain ⟨gap, behind, hgap, rfl, hrest, _⟩ :=
        exists_of_lexemes_eq_cons hafter
      refine ⟨blanks ++ '(' :: ((innerText ++ gap) ++ [')']), behind,
        by simp [Lexeme.chars], ?_, hrest⟩
      exact (Infix.group (hwritten.blanksAfter hgap)).blanksBefore hblanks

/-- A text writes the trees that its lexemes write. -/
theorem InfixLexemes.written_of_lexemes {level : Nat} {tree : ExpressionTree}
    {text : List Char} (hparts : tree.InfixLexemes level (lexemes true text)) :
    tree.Infix level text := by
  obtain ⟨front, back, rfl, hwritten, hback⟩ :=
    hparts.exists_written (List.append_nil _).symm
  exact hwritten.blanksAfter (allBlank_of_lexemes_eq_nil hback)

end ExpressionTree

end LineScript
