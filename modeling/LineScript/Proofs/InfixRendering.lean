/-
Expression trees and the texts that write them.  A text writes a tree when it has
parentheses at least where the levels of the operators ask for them; operators of
one level group to the left.  The postfix form of such a text is the tree in
post-order: the waiting operators are always those between the root and the place
that is being read, so each of them is released right behind its second operand.
-/
import LineScript.PostfixForm

namespace LineScript

/-- An operand is written with any characters but operators, parentheses and
blanks, and may have a minus sign glued to it. -/
structure OperandText where
  text : String
  written : ∃ run, run ≠ [] ∧ (∀ c ∈ run, isOperandChar c = true) ∧
    (text.toList = run ∨ text.toList = '-' :: run)

/-- Calculations as trees.  The leaves are operand texts. -/
inductive ExpressionTree
  | leaf (operand : OperandText)
  | node (op : Operator) (left right : ExpressionTree)

namespace ExpressionTree

/-- The parts of a tree, operators behind their operands. -/
def postorder : ExpressionTree → List PostfixItem
  | leaf operand => [.operand operand.text]
  | node op left right => left.postorder ++ right.postorder ++ [.operator op]

/-- The texts that write a tree where only operators of at least the given level
may stand without parentheses.  The right operand of an operator needs a higher
level than the left one.  Blanks may stand around every part. -/
inductive Infix : Nat → ExpressionTree → List Char → Prop
  | leaf {level : Nat} {operand : OperandText} :
    Infix level (.leaf operand) operand.text.toList
  | node {level : Nat} {op : Operator} {left right : ExpressionTree}
      {leftText rightText : List Char} :
    level ≤ op.precedence → Infix op.precedence left leftText →
      Infix (op.precedence + 1) right rightText →
      Infix level (.node op left right)
        (leftText ++ op.symbol :: rightText)
  | group {level : Nat} {tree : ExpressionTree} {text : List Char} :
    Infix 0 tree text → Infix level tree ('(' :: (text ++ [')']))
  | blankBefore {level : Nat} {tree : ExpressionTree} {text : List Char}
      {c : Char} :
    isBlank c = true → Infix level tree text → Infix level tree (c :: text)
  | blankAfter {level : Nat} {tree : ExpressionTree} {text : List Char}
      {c : Char} :
    Infix level tree text → isBlank c = true →
      Infix level tree (text ++ [c])

/-- The same for lexemes, where no blanks are left. -/
inductive InfixLexemes : Nat → ExpressionTree → List Lexeme → Prop
  | leaf {level : Nat} {operand : OperandText} :
    InfixLexemes level (.leaf operand) [.operand operand.text]
  | node {level : Nat} {op : Operator} {left right : ExpressionTree}
      {leftLexemes rightLexemes : List Lexeme} :
    level ≤ op.precedence → InfixLexemes op.precedence left leftLexemes →
      InfixLexemes (op.precedence + 1) right rightLexemes →
      InfixLexemes level (.node op left right)
        (leftLexemes ++ .operator op :: rightLexemes)
  | group {level : Nat} {tree : ExpressionTree} {inner : List Lexeme} :
    InfixLexemes 0 tree inner →
      InfixLexemes level tree (.opening :: (inner ++ [.closing]))

end ExpressionTree

theorem isOperandChar_iff {c : Char} :
    isOperandChar c = true ↔
      isBlank c = false ∧ c ≠ '(' ∧ c ≠ ')' ∧ Operator.ofChar? c = none := by
  simp [isOperandChar, and_assoc]

theorem isOperandChar_of_isBlank {c : Char} (hblank : isBlank c = true) :
    isOperandChar c = false := by
  simp [isOperandChar, hblank]

@[simp]
theorem isOperandChar_symbol (op : Operator) :
    isOperandChar op.symbol = false := by
  simp [isOperandChar]

/-- No operand goes on into this text. -/
def StopsOperand (text : List Char) : Prop :=
  ∀ c ∈ text.head?, isOperandChar c = false

theorem stopsOperand_cons {c : Char} (hc : isOperandChar c = false)
    (text : List Char) : StopsOperand (c :: text) := by
  intro first hfirst
  obtain rfl : c = first := by simpa using hfirst
  exact hc

theorem takeWhile_of_stops {run behind : List Char}
    (hrun : ∀ c ∈ run, isOperandChar c = true)
    (hbehind : StopsOperand behind) :
    (run ++ behind).takeWhile isOperandChar = run := by
  rw [List.takeWhile_append_of_pos hrun]
  cases behind with
  | nil => simp
  | cons c later => simp [hbehind c rfl]

theorem dropWhile_of_stops {run behind : List Char}
    (hrun : ∀ c ∈ run, isOperandChar c = true)
    (hbehind : StopsOperand behind) :
    (run ++ behind).dropWhile isOperandChar = behind := by
  rw [List.dropWhile_append_of_pos hrun]
  cases behind with
  | nil => simp
  | cons c later => simp [hbehind c rfl]

section Lexemes

variable (expecting : Bool) (later : List Char)

theorem lexemes_blank {c : Char} (hblank : isBlank c = true) :
    lexemes expecting (c :: later) = lexemes expecting later := by
  rw [lexemes]
  simp [hblank]

theorem lexemes_opening :
    lexemes expecting ('(' :: later) = .opening :: lexemes true later := by
  rw [lexemes]
  simp [show isBlank '(' = false by decide]

theorem lexemes_closing :
    lexemes expecting (')' :: later) = .closing :: lexemes false later := by
  rw [lexemes]
  simp [show isBlank ')' = false by decide]

/-- Every operator is one, but for a minus sign in the place of an operand. -/
theorem lexemes_operator {op : Operator}
    (hplace : op = .sub → expecting = false) :
    lexemes expecting (op.symbol :: later) =
      .operator op :: lexemes true later := by
  have hblank : isBlank op.symbol = false := by cases op <;> decide
  have hopening : op.symbol ≠ '(' := by cases op <;> decide
  have hclosing : op.symbol ≠ ')' := by cases op <;> decide
  rw [lexemes]
  simp +contextual [hblank, hopening, hclosing, hplace]

end Lexemes

theorem lexemes_unsigned (expecting : Bool) {run behind : List Char}
    (hnonempty : run ≠ []) (hrun : ∀ c ∈ run, isOperandChar c = true)
    (hbehind : StopsOperand behind) :
    lexemes expecting (run ++ behind) =
      .operand (String.ofList run) :: lexemes false behind := by
  obtain ⟨c, later, rfl⟩ := List.exists_cons_of_ne_nil hnonempty
  obtain ⟨hblank, hopening, hclosing, hoperator⟩ :=
    isOperandChar_iff.mp (hrun c List.mem_cons_self)
  have hlater : ∀ d ∈ later, isOperandChar d = true := by
    intro d hd
    exact hrun d (List.mem_cons_of_mem c hd)
  rw [List.cons_append, lexemes, takeWhile_of_stops hlater hbehind,
    dropWhile_of_stops hlater hbehind]
  simp [hblank, hopening, hclosing, hoperator]

/-- A minus sign in the place of an operand belongs to the run behind it. -/
theorem lexemes_signed {run behind : List Char} (hnonempty : run ≠ [])
    (hrun : ∀ c ∈ run, isOperandChar c = true)
    (hbehind : StopsOperand behind) :
    lexemes true ('-' :: (run ++ behind)) =
      .operand (String.ofList ('-' :: run)) :: lexemes false behind := by
  have hblank : isBlank '-' = false := by decide
  have hoperator : Operator.ofChar? '-' = some .sub := by decide
  rw [lexemes, takeWhile_of_stops hrun hbehind,
    dropWhile_of_stops hrun hbehind]
  simp [hblank, hoperator, hnonempty]

theorem lexemes_operand (operand : OperandText) {behind : List Char}
    (hbehind : StopsOperand behind) :
    lexemes true (operand.text.toList ++ behind) =
      .operand operand.text :: lexemes false behind := by
  obtain ⟨run, hnonempty, hrun, hchars | hchars⟩ := operand.written
  · rw [hchars, lexemes_unsigned true hnonempty hrun hbehind, ← hchars,
      String.ofList_toList]
  · rw [hchars, List.cons_append, lexemes_signed hnonempty hrun hbehind,
      ← hchars, String.ofList_toList]

/-- A text that writes a tree is cut into lexemes that write it, and what stands
behind the text is cut as it would be behind an operand. -/
theorem ExpressionTree.Infix.lexemes_eq {level : Nat} {tree : ExpressionTree}
    {text : List Char} (hwritten : tree.Infix level text) :
    ∃ parts, tree.InfixLexemes level parts ∧
      ∀ behind, StopsOperand behind →
        lexemes true (text ++ behind) = parts ++ lexemes false behind := by
  induction hwritten with
  | @leaf _ operand =>
      refine ⟨_, .leaf, ?_⟩
      intro behind hbehind
      rw [lexemes_operand operand hbehind, List.singleton_append]
  | @node _ op _ _ leftText rightText hlevel _ _ ihleft ihright =>
      obtain ⟨leftParts, hleft, hleftText⟩ := ihleft
      obtain ⟨rightParts, hright, hrightText⟩ := ihright
      refine ⟨_, .node hlevel hleft hright, ?_⟩
      intro behind hbehind
      rw [List.append_assoc, List.cons_append,
        hleftText _ (stopsOperand_cons (isOperandChar_symbol op) _),
        lexemes_operator _ _ (fun _ => rfl), hrightText behind hbehind,
        List.append_assoc, List.cons_append]
  | group _ ih =>
      obtain ⟨inner, hinner, hinnerText⟩ := ih
      refine ⟨_, .group hinner, ?_⟩
      intro behind _
      rw [List.cons_append, List.append_assoc, List.singleton_append,
        lexemes_opening, hinnerText _ (stopsOperand_cons (by decide) _),
        lexemes_closing, List.cons_append, List.append_assoc,
        List.singleton_append]
  | blankBefore hblank _ ih =>
      obtain ⟨parts, hparts, htext⟩ := ih
      refine ⟨parts, hparts, ?_⟩
      intro behind hbehind
      rw [List.cons_append, lexemes_blank _ _ hblank, htext behind hbehind]
  | blankAfter _ hblank ih =>
      obtain ⟨parts, hparts, htext⟩ := ih
      refine ⟨parts, hparts, ?_⟩
      intro behind _
      have hstops := stopsOperand_cons (isOperandChar_of_isBlank hblank) behind
      rw [List.append_assoc, List.singleton_append, htext _ hstops,
        lexemes_blank _ _ hblank]

/-- No operator of the given level or above waits on top of the stack. -/
def Blocks (level : Nat) : List Waiting → Prop
  | .operator op :: _ => op.precedence < level
  | _ => True

theorem Blocks.mono {lower level : Nat} {stack : List Waiting}
    (hlevel : lower ≤ level) (hblocks : Blocks lower stack) :
    Blocks level stack := by
  match stack, hblocks with
  | [], _ => trivial
  | .opening :: _, _ => trivial
  | .operator _ :: _, hop => exact Nat.lt_of_lt_of_le hop hlevel

section Release

variable {pending : List Operator} {stack : List Waiting}

theorem releaseTighter_pending {op : Operator}
    (hpending : ∀ top ∈ pending, op.precedence ≤ top.precedence)
    (hblocks : Blocks op.precedence stack) :
    releaseTighter op (pending.map .operator ++ stack) =
      (pending.map .operator, stack) := by
  induction pending with
  | nil =>
      match stack, hblocks with
      | [], _ => rfl
      | .opening :: _, _ => rfl
      | .operator top :: _, htop =>
          exact if_neg (Nat.not_le_of_lt htop)
  | cons top later ih =>
      have htop := hpending top List.mem_cons_self
      have hlater := ih fun other hother =>
        hpending other (List.mem_cons_of_mem top hother)
      simp [releaseTighter, htop, hlater]

theorem releaseGroup_pending :
    releaseGroup (pending.map .operator ++ .opening :: stack) =
      some (pending.map .operator, stack) := by
  induction pending with
  | nil => rfl
  | cons op later ih => simp [releaseGroup, ih]

theorem releaseAll_pending :
    releaseAll (pending.map .operator) = .ok (pending.map .operator) := by
  induction pending with
  | nil => rfl
  | cons op later ih => simp [releaseAll, ih, Except.map]

end Release

theorem arrange_operator {op : Operator} {stack kept : List Waiting}
    {released : List PostfixItem}
    (hrelease : releaseTighter op stack = (released, kept))
    (later : List Lexeme) :
    arrange false stack (.operator op :: later) =
      (arrange true (.operator op :: kept) later).map (released ++ ·) := by
  simp [arrange, hrelease]

theorem arrange_closing {stack kept : List Waiting}
    {released : List PostfixItem}
    (hrelease : releaseGroup stack = some (released, kept))
    (later : List Lexeme) :
    arrange false stack (.closing :: later) =
      (arrange false kept later).map (released ++ ·) := by
  simp [arrange, hrelease]

theorem map_append_map_append {α ε : Type} (result : Except ε (List α))
    (front back : List α) :
    (result.map (back ++ ·)).map (front ++ ·) =
      result.map (front ++ back ++ ·) := by
  cases result with
  | error fault => rfl
  | ok items => simp [Except.map]

/-- Reading the lexemes of a tree emits the tree in post-order but for the
operators on its right edge.  These wait on top of the stack, and none of them
is below the level of the text. -/
theorem ExpressionTree.InfixLexemes.arrange_eq {level : Nat}
    {tree : ExpressionTree} {parts : List Lexeme}
    (hparts : tree.InfixLexemes level parts) (stack : List Waiting)
    (hblocks : Blocks level stack) :
    ∃ (emitted : List PostfixItem) (pending : List Operator),
      (∀ op ∈ pending, level ≤ op.precedence) ∧
      emitted ++ pending.map .operator = tree.postorder ∧
      ∀ later, arrange true stack (parts ++ later) =
        (arrange false (pending.map .operator ++ stack) later).map
          (emitted ++ ·) := by
  induction hparts generalizing stack with
  | @leaf _ operand =>
      refine ⟨[.operand operand.text], [], by simp, rfl, ?_⟩
      intro later
      rfl
  | @node _ op left right _ _ hlevel _ _ ihleft ihright =>
      obtain ⟨leftEmitted, leftPending, hleftPending, hleft, hleftRun⟩ :=
        ihleft stack (hblocks.mono hlevel)
      obtain ⟨rightEmitted, rightPending, hrightPending, hright, hrightRun⟩ :=
        ihright (.operator op :: stack) (Nat.lt_succ_self _)
      refine ⟨left.postorder ++ rightEmitted, rightPending ++ [op], ?_, ?_, ?_⟩
      · intro other hother
        rcases List.mem_append.mp hother with hother | hother
        · have := hrightPending other hother
          omega
        · obtain rfl := List.mem_singleton.mp hother
          exact hlevel
      · simp [postorder, ← hright]
      · intro later
        -- The operator takes off the stack what the left side left there, and
        -- nothing from below: that binds less tightly.
        have hrelease := releaseTighter_pending hleftPending
          (hblocks.mono hlevel)
        rw [List.append_assoc, List.cons_append, hleftRun,
          arrange_operator hrelease, hrightRun, map_append_map_append,
          map_append_map_append, hleft, List.map_append, List.append_assoc]
        rfl
  | group _ ih =>
      obtain ⟨emitted, pending, _, hinner, hrun⟩ :=
        ih (.opening :: stack) trivial
      refine ⟨_, [], by simp, List.append_nil _, ?_⟩
      intro later
      rw [List.cons_append, List.append_assoc, List.singleton_append, arrange,
        if_pos rfl, hrun, arrange_closing releaseGroup_pending,
        map_append_map_append, hinner]
      rfl

/-- The postfix form of a text is the tree that it writes, in post-order. -/
theorem ExpressionTree.Infix.toPostfix_eq {tree : ExpressionTree}
    {text : String} (hwritten : tree.Infix 0 text.toList) :
    toPostfix text = .ok tree.postorder := by
  obtain ⟨parts, hparts, htext⟩ := hwritten.lexemes_eq
  obtain ⟨emitted, pending, _, htree, hrun⟩ :=
    hparts.arrange_eq [] trivial
  have hlexemes : lexemes true text.toList = parts := by
    have hend := htext [] (by simp [StopsOperand])
    simpa [lexemes] using hend
  have harrange := hrun []
  rw [List.append_nil, List.append_nil, arrange, if_neg (by decide),
    releaseAll_pending] at harrange
  rw [toPostfix, hlexemes, harrange, ← htree]
  rfl

end LineScript
