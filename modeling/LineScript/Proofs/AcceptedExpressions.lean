/-
Only expressions have a value.  A text that can be rearranged need not write a
tree: an operand may follow an operand directly.  Then the postfix form has too
many operands for its operators, and no evaluation leaves just one of them.  In
every other text the lexemes in front of each place write trees as far as they are
complete, and the stack tells what is still open.
-/
import LineScript.Proofs.PostfixBalance
import Mathlib.Data.List.Chain

namespace LineScript

open ExpressionTree

theorem ExpressionTree.InfixLexemes.mono {lower level : Nat}
    {tree : ExpressionTree} {parts : List Lexeme} (hlower : lower ≤ level)
    (hparts : tree.InfixLexemes level parts) :
    tree.InfixLexemes lower parts := by
  cases hparts with
  | leaf => exact .leaf
  | node hlevel hleft hright =>
      exact .node (Nat.le_trans hlower hlevel) hleft hright
  | group hinner => exact .group hinner

/-- The lexemes that leave a stack behind and have an operand follow them.  A
waiting operator has its left side, which is as tight as the operator asks for,
and nothing below it that should have been released. -/
inductive Opened : List Waiting → List Lexeme → Prop
  | start : Opened [] []
  | opening {stack : List Waiting} {front : List Lexeme} :
    Opened stack front → Opened (.opening :: stack) (front ++ [.opening])
  | operator {stack : List Waiting} {front leftParts : List Lexeme}
      {op : Operator} {left : ExpressionTree} :
    Opened stack front → Blocks op.precedence stack →
      left.InfixLexemes op.precedence leftParts →
      Opened (.operator op :: stack) (front ++ leftParts ++ [.operator op])

/-- The lexemes end with a tree, behind those that left the stack. -/
def EndsWithTree (level : Nat) (stack : List Waiting)
    (parts : List Lexeme) : Prop :=
  ∃ front tree term, Opened stack front ∧
    InfixLexemes level tree term ∧ parts = front ++ term

namespace EndsWithTree

variable {lower level : Nat} {stack : List Waiting} {parts : List Lexeme}

theorem mono (hlower : lower ≤ level)
    (hparts : EndsWithTree level stack parts) :
    EndsWithTree lower stack parts := by
  obtain ⟨front, tree, term, hfront, hterm, rfl⟩ := hparts
  exact ⟨front, tree, term, hfront, hterm.mono hlower, rfl⟩

/-- An operator that is released takes the tree behind it for its right side. -/
theorem release {op : Operator}
    (hparts : EndsWithTree (op.precedence + 1) (.operator op :: stack) parts) :
    Blocks op.precedence stack ∧ EndsWithTree op.precedence stack parts := by
  obtain ⟨_, right, rightParts, hopened, hright, rfl⟩ := hparts
  obtain _ | _ | ⟨hfront, hblocks, hleft⟩ := hopened
  refine ⟨hblocks, _, _, _, hfront, .node (Nat.le_refl _) hleft hright, ?_⟩
  simp

/-- Operators are released from the top, each tighter than the one below it, so the
level of the tree only sinks. -/
theorem releaseAll {pending : List Operator}
    (hparts : EndsWithTree level (pending.map .operator ++ stack) parts)
    (hblocks : Blocks level (pending.map .operator ++ stack))
    (hlower : lower ≤ level)
    (hpending : ∀ op ∈ pending, lower ≤ op.precedence) :
    EndsWithTree lower stack parts := by
  induction pending generalizing level with
  | nil => exact hparts.mono hlower
  | cons op later ih =>
      obtain ⟨hop, hlater⟩ := List.forall_mem_cons.mp hpending
      obtain ⟨hblocks, hparts⟩ := release (hparts.mono hblocks)
      exact ih hparts hblocks hop hlater

end EndsWithTree

theorem exists_blocks (lower : Nat) (stack : List Waiting) :
    ∃ level, lower ≤ level ∧ Blocks level stack := by
  rcases stack with _ | ⟨_ | op, rest⟩
  · exact ⟨lower, Nat.le_refl lower, trivial⟩
  · exact ⟨lower, Nat.le_refl lower, trivial⟩
  · exact ⟨max lower (op.precedence + 1), Nat.le_max_left _ _,
      Nat.le_max_right _ _⟩

/-- What stands in front of a place: lexemes that have opened the stack where an
operand is expected, and elsewhere lexemes that end with an operand or a group. -/
def Reached : Bool → List Waiting → List Lexeme → Prop
  | true, stack, front => Opened stack front
  | false, stack, front => ∀ level, EndsWithTree level stack front

namespace Reached

variable {stack : List Waiting} {pending : List Operator} {front : List Lexeme}

theorem released {lower : Nat}
    (hreached : Reached false (pending.map .operator ++ stack) front)
    (hpending : ∀ op ∈ pending, lower ≤ op.precedence) :
    EndsWithTree lower stack front := by
  obtain ⟨level, hlower, hblocks⟩ :=
    exists_blocks lower (pending.map .operator ++ stack)
  exact (hreached level).releaseAll hblocks hlower hpending

theorem operand (operand : OperandText) (hreached : Reached true stack front) :
    Reached false stack (front ++ [.operand operand.text]) := by
  intro level
  exact ⟨front, .leaf operand, _, hreached, .leaf, rfl⟩

theorem operator {op : Operator}
    (hreached : Reached false (pending.map .operator ++ stack) front)
    (hpending : ∀ top ∈ pending, op.precedence ≤ top.precedence)
    (hblocks : Blocks op.precedence stack) :
    Reached true (.operator op :: stack) (front ++ [.operator op]) := by
  obtain ⟨before, left, leftParts, hopened, hleft, rfl⟩ :=
    hreached.released hpending
  exact .operator hopened hblocks hleft

theorem closing
    (hreached : Reached false (pending.map .operator ++ .opening :: stack)
      front) :
    Reached false stack (front ++ [.closing]) := by
  obtain ⟨_, tree, inner, hopened, hinner, rfl⟩ :=
    hreached.released fun op _ => Nat.zero_le op.precedence
  obtain _ | ⟨hbefore⟩ := hopened
  intro level
  exact ⟨_, tree, _, hbefore, .group hinner, by simp⟩

/-- Where nothing is open, the lexemes write one tree. -/
theorem exists_tree (hreached : Reached false (pending.map .operator) front) :
    ∃ tree, InfixLexemes 0 tree front := by
  rw [← List.append_nil (pending.map _)] at hreached
  obtain ⟨_, tree, parts, hopened, hparts, rfl⟩ :=
    hreached.released fun op _ => Nat.zero_le op.precedence
  obtain _ | _ := hopened
  exact ⟨tree, hparts⟩

end Reached

/-- If there are no more operands than needed, lexemes that can be rearranged
write a tree together with those in front of them. -/
theorem Arranges.exists_tree {expecting : Bool} {stack : List Waiting}
    {front parts : List Lexeme} {items : List PostfixItem}
    (harranges : Arranges expecting stack parts items)
    (hformed : ∀ lexeme ∈ parts, lexeme.IsFormed)
    (hcount : (parts.filterMap Lexeme.operand?).length =
      (parts.filterMap Lexeme.operator?).length + expecting.toNat)
    (hreached : Reached expecting stack front) :
    ∃ tree, InfixLexemes 0 tree (front ++ parts) := by
  induction harranges generalizing front with
  | done pending => simpa using hreached.exists_tree
  | opening _ ih =>
      obtain ⟨_, hlater⟩ := List.forall_mem_cons.mp hformed
      have htree := ih hlater hcount hreached.opening
      simpa using htree
  | closing _ ih =>
      obtain ⟨_, hlater⟩ := List.forall_mem_cons.mp hformed
      have htree := ih hlater hcount hreached.closing
      simpa using htree
  | operator hpending hblocks _ ih =>
      obtain ⟨_, hlater⟩ := List.forall_mem_cons.mp hformed
      have htree := ih hlater hcount (hreached.operator hpending hblocks)
      simpa using htree
  | @operand expecting _ _ _ _ harranges ih =>
      obtain ⟨hfirst, hlater⟩ := List.forall_mem_cons.mp hformed
      obtain ⟨operand, rfl⟩ := hfirst _ rfl
      have hleast := harranges.operators_le
      simp only [List.filterMap_cons, Lexeme.operand?, Lexeme.operator?,
        List.length_cons] at hcount
      rcases expecting with _ | _
      · -- An operand behind an operand is one too many: the lexemes behind it
        -- have enough of them for their own operators.
        simp only [Bool.toNat_false] at hcount hleast
        omega
      · have htree := ih hlater (by simpa using hcount)
          (hreached.operand operand)
        simpa using htree

section Value

variable {α : Type} [Operand α] {text : String} {value : α}

/-- The lexemes of a text that has a value write a tree. -/
theorem exists_tree_of_calculate (hvalue : calculate α text = .ok value) :
    ∃ tree, InfixLexemes 0 tree (lexemes true text.toList) := by
  obtain ⟨items, hitems, hvalue⟩ := bind_eq_ok_iff.mp hvalue
  have harranges := arranges_of_arrange hitems
  have hformed : ∀ lexeme ∈ lexemes true text.toList, lexeme.IsFormed :=
    isFormed_of_mem_lexemes
  have hcount := operands_of_evaluatePostfix
    (harranges.operandsFormed hformed) hvalue
  rw [harranges.operands_eq, harranges.operators_perm.length_eq] at hcount
  exact harranges.exists_tree hformed hcount .start

theorem ExpressionTree.Infix.calculate_eq [LawfulOperand α]
    {tree : ExpressionTree} (hwritten : tree.Infix 0 text.toList) :
    calculate α text = tree.evaluate α := by
  rw [calculate, hwritten.toPostfix_eq]
  exact tree.evaluatePostfix_tokens

end Value

namespace Lexeme

/-- An operand, or a group in its place, starts here. -/
def startsOperand : Lexeme → Bool
  | opening | operand _ => true
  | closing | operator _ | danglingSign => false

/-- An operand, or a group in its place, ends here. -/
def endsOperand : Lexeme → Bool
  | closing | operand _ => true
  | opening | operator _ | danglingSign => false

end Lexeme

/-- Operands and operators take turns, no sign stands alone, and parentheses close
what was opened before them.  Neighbours that both end and start an operand would
be juxtaposed; if they do neither, an operand is missing between them. -/
structure WellPlaced (parts : List Lexeme) : Prop where
  starts : ∃ first ∈ parts.head?, first.startsOperand = true
  ends : ∃ last ∈ parts.getLast?, last.endsOperand = true
  takeTurns : parts.IsChain fun left right =>
    left.endsOperand ≠ right.startsOperand
  noSign : .danglingSign ∉ parts
  balanced : parts.count .closing = parts.count .opening
  nested : ∀ n, (parts.take n).count .closing ≤ (parts.take n).count .opening

namespace WellPlaced

variable {parts leftParts rightParts : List Lexeme}

theorem operand (text : String) : WellPlaced [.operand text] where
  starts := ⟨_, rfl, rfl⟩
  ends := ⟨_, rfl, rfl⟩
  takeTurns := .singleton _
  noSign := by simp
  balanced := by simp
  nested n := by cases n <;> simp

theorem operator (op : Operator) (hleft : WellPlaced leftParts)
    (hright : WellPlaced rightParts) :
    WellPlaced (leftParts ++ .operator op :: rightParts) := by
  obtain ⟨first, hfirst, hstarts⟩ := hleft.starts
  obtain ⟨middle, hmiddle, hmiddleEnds⟩ := hleft.ends
  obtain ⟨next, hnext, hnextStarts⟩ := hright.starts
  obtain ⟨last, hlast, hends⟩ := hright.ends
  refine ⟨⟨first, ?_, hstarts⟩, ⟨last, ?_, hends⟩, ?_, ?_, ?_, ?_⟩
  · simp [Option.mem_def.mp hfirst]
  · simp [List.getLast?_cons, Option.mem_def.mp hlast]
  · refine hleft.takeTurns.append (hright.takeTurns.cons ?_) ?_
    · intro right hhead
      obtain rfl := Option.mem_unique hnext hhead
      simp [hnextStarts, Lexeme.endsOperand]
    · rintro left hend _ ⟨rfl⟩
      obtain rfl := Option.mem_unique hmiddle hend
      simp [hmiddleEnds, Lexeme.startsOperand]
  · simp [hleft.noSign, hright.noSign]
  · simp [hleft.balanced, hright.balanced]
  · intro n
    have hfront := hleft.nested n
    rw [List.take_append, List.count_append, List.count_append]
    rcases n - leftParts.length with _ | k
    · simpa using hfront
    · have hback := hright.nested k
      simpa using Nat.add_le_add hfront hback

theorem group (hinner : WellPlaced parts) :
    WellPlaced (.opening :: (parts ++ [.closing])) := by
  obtain ⟨first, hfirst, hstarts⟩ := hinner.starts
  obtain ⟨last, hlast, hends⟩ := hinner.ends
  refine ⟨⟨.opening, rfl, rfl⟩, ⟨.closing, ?_, rfl⟩, ?_, ?_, ?_, ?_⟩
  · simp [List.getLast?_cons]
  · refine (hinner.takeTurns.append (.singleton _) ?_).cons ?_
    · rintro left hend _ ⟨rfl⟩
      obtain rfl := Option.mem_unique hlast hend
      simp [hends, Lexeme.startsOperand]
    · intro right hhead
      obtain rfl : first = right := by
        simpa [Option.mem_def.mp hfirst] using hhead
      simp [hstarts, Lexeme.endsOperand]
  · simp [hinner.noSign]
  · simp [hinner.balanced]
  · intro n
    rcases n with _ | n
    · simp
    · have hfront := hinner.nested n
      rw [List.take_succ_cons, List.take_append]
      rcases n - parts.length with _ | k
      · simpa using Nat.le_succ_of_le hfront
      · simpa using hfront

end WellPlaced

theorem ExpressionTree.InfixLexemes.wellPlaced {level : Nat}
    {tree : ExpressionTree} {parts : List Lexeme}
    (hparts : tree.InfixLexemes level parts) : WellPlaced parts := by
  induction hparts with
  | leaf => exact .operand _
  | node _ _ _ ihleft ihright => exact .operator _ ihleft ihright
  | group _ ih => exact .group ih

/-- A text has a value exactly if it writes a tree that has it.  Then operands and
operators take turns in the text, and its parentheses match. -/
theorem has_value_iff_expression (text : String) (value : Int64) :
    (calculate Int64 text = .ok value ↔
      ∃ tree : ExpressionTree, tree.Infix 0 text.toList ∧
        tree.evaluate Int64 = .ok value) ∧
    (calculate Int64 text = .ok value →
      WellPlaced (lexemes true text.toList)) := by
  refine ⟨⟨?_, ?_⟩, ?_⟩
  · intro hvalue
    obtain ⟨tree, htree⟩ := exists_tree_of_calculate hvalue
    have hwritten := htree.written_of_lexemes
    exact ⟨tree, hwritten, hwritten.calculate_eq.symm.trans hvalue⟩
  · rintro ⟨tree, hwritten, hvalue⟩
    exact hwritten.calculate_eq.trans hvalue
  · intro hvalue
    obtain ⟨tree, htree⟩ := exists_tree_of_calculate hvalue
    exact htree.wellPlaced

/-- A product with signs writes a tree.  An operand glued to a group has no value,
although it can be rearranged. -/
theorem juxtaposed_has_no_value :
    (∃ tree : ExpressionTree, tree.Infix 0 "-2 *(3- -4)".toList ∧
      tree.evaluate Int64 = .ok (-14)) ∧
    toPostfix "(1)2" = .ok [.operand "1", .operand "2"] ∧
    ∀ value, calculate Int64 "(1)2" ≠ .ok value := by
  have hproduct : calculate Int64 "-2 *(3- -4)" = .ok (-14) := by
    decide +kernel
  have hlexemes : lexemes true "(1)2".toList =
      [.opening, .operand "1", .closing, .operand "2"] := by decide +kernel
  refine ⟨(has_value_iff_expression _ _).1.mp hproduct, by decide +kernel, ?_⟩
  intro value hvalue
  have hplaced := (has_value_iff_expression _ value).2 hvalue
  rw [hlexemes] at hplaced
  exact absurd hplaced.takeTurns (by decide)

end LineScript
