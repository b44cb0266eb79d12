/-
Calculating a text evaluates the tree that it writes.  The postfix form runs on a
stack of texts, where results travel as text and operands are read only when an
operator takes them.  The tree is evaluated without stack and texts, in the same
order: an operand stays unread until both sides of its operator are done.
-/
import LineScript.Calculator
import LineScript.Proofs.InfixRendering
import LineScript.Proofs.IntegerRoundTrip
import LineScript.Proofs.WordPieces

namespace LineScript

/-- What a tree comes to before an operator takes it: an operand that nobody has
read yet, or a result. -/
inductive Reduced (α : Type)
  | unread (operand : OperandText)
  | result (value : α)

namespace Reduced

variable {α : Type} [Operand α]

def read : Reduced α → Except CalculationError α
  | unread operand => readOperand α operand.text
  | result value => .ok value

/-- How it lies on the stack. -/
def text : Reduced α → String
  | unread operand => operand.text
  | result value => Operand.text value

theorem readOperand_text [LawfulOperand α] (reduced : Reduced α) :
    readOperand α reduced.text = reduced.read := by
  cases reduced with
  | unread operand => rfl
  | result value => simp [readOperand, text, read, LawfulOperand.read?_text]

end Reduced

namespace ExpressionTree

variable (α : Type) [Operand α]

/-- Evaluates both sides of an operator, reads the left and then the right one
if they are operands, and applies the operator. -/
def reduce : ExpressionTree → Except CalculationError (Reduced α)
  | leaf operand => .ok (.unread operand)
  | node op left right => do
    let leftReduced ← left.reduce
    let rightReduced ← right.reduce
    let leftValue ← leftReduced.read
    let rightValue ← rightReduced.read
    let value ← Operand.apply op leftValue rightValue
    return .result value

/-- The value of a tree.  A tree that is only an operand is read at the end. -/
def evaluate (tree : ExpressionTree) : Except CalculationError α := do
  let reduced ← tree.reduce α
  reduced.read

end ExpressionTree

theorem OperandText.ofToken?_text (operand : OperandText) :
    Operator.ofToken? operand.text = none := by
  obtain ⟨run, hnonempty, hrun, hchars⟩ := operand.written
  unfold Operator.ofToken?
  split
  next c hsingle =>
    rw [hsingle] at hchars
    rcases hchars with hunsigned | hsigned
    · have hc : isOperandChar c = true := hrun c (by simp [← hunsigned])
      exact (isOperandChar_iff.mp hc).2.2.2
    · exact absurd (List.cons.inj hsigned).2.symm hnonempty
  next => rfl

theorem OperandText.isWord_text (operand : OperandText) :
    IsWord operand.text := by
  obtain ⟨run, hnonempty, hrun, hchars⟩ := operand.written
  have hsign : isBlank '-' = false := by decide
  have hblank : ∀ c ∈ run, isBlank c = false := by
    intro c hc
    exact (isOperandChar_iff.mp (hrun c hc)).1
  constructor
  · rintro hempty
    rcases hchars with hunsigned | hsigned
    · exact hnonempty (by simpa [hempty] using hunsigned.symm)
    · simp [hempty] at hsigned
  · rcases hchars with hunsigned | hsigned
    · rw [hunsigned]
      exact hblank
    · rw [hsigned]
      simpa [hsign] using hblank

@[simp]
theorem Operator.ofToken?_singleton (op : Operator) :
    ofToken? (String.singleton op.symbol) = some op := by
  simp [ofToken?]

theorem Operator.isWord_symbol (op : Operator) :
    IsWord (String.singleton op.symbol) := by
  have hblank : isBlank op.symbol = false := by cases op <;> decide
  constructor
  · simp
  · simpa using hblank

namespace ExpressionTree

/-- The parts of a tree as texts. -/
def tokens (tree : ExpressionTree) : List String :=
  tree.postorder.map PostfixItem.text

theorem isWord_of_mem_tokens (tree : ExpressionTree) :
    ∀ token ∈ tree.tokens, IsWord token := by
  induction tree with
  | leaf operand =>
      intro token htoken
      obtain rfl : token = operand.text := by
        simpa [tokens, postorder, PostfixItem.text] using htoken
      exact operand.isWord_text
  | node op left right ihleft ihright =>
      intro token htoken
      have hparts : token ∈ left.tokens ∨ token ∈ right.tokens ∨
          token = String.singleton op.symbol := by
        simpa [tokens, postorder, PostfixItem.text] using htoken
      rcases hparts with hleft | hright | rfl
      · exact ihleft token hleft
      · exact ihright token hright
      · exact op.isWord_symbol

variable {α : Type} [Operand α] [LawfulOperand α]

/-- An operator reads what its sides have come to. -/
theorem postfixStep_operator (op : Operator) (left right : Reduced α)
    (stack : List String) :
    postfixStep α (right.text :: left.text :: stack)
        (String.singleton op.symbol) = (do
      let leftValue ← left.read
      let rightValue ← right.read
      let value ← Operand.apply op leftValue rightValue
      return (Reduced.result value).text :: stack) := by
  simp only [postfixStep, Operator.ofToken?_singleton,
    Reduced.readOperand_text]
  rfl

/-- The tokens of a tree put on the stack what the tree comes to, whatever the
stack holds and whatever tokens follow. -/
theorem foldlM_tokens (tree : ExpressionTree) (stack later : List String) :
    (tree.tokens ++ later).foldlM (postfixStep α) stack = (do
      let reduced ← tree.reduce α
      later.foldlM (postfixStep α) (reduced.text :: stack)) := by
  induction tree generalizing stack later with
  | leaf operand =>
      have hstep : postfixStep α stack operand.text =
          .ok (operand.text :: stack) := by
        simp [postfixStep, operand.ofToken?_text]
      change List.foldlM (postfixStep α) stack (operand.text :: later) = _
      rw [List.foldlM_cons, hstep]
      rfl
  | node op left right ihleft ihright =>
      have htokens : (node op left right).tokens ++ later =
          left.tokens ++ (right.tokens ++
            (String.singleton op.symbol :: later)) := by
        simp [tokens, postorder, PostfixItem.text]
      rw [htokens, ihleft]
      simp only [ihright, List.foldlM_cons, postfixStep_operator, reduce,
        bind_assoc, pure_bind]

theorem evaluatePostfix_tokens (tree : ExpressionTree) :
    evaluatePostfix α (" ".intercalate tree.tokens) = tree.evaluate α := by
  have hfold : tree.tokens.foldlM (postfixStep α) [] = (do
      let reduced ← tree.reduce α
      return [reduced.text]) := by
    simpa using tree.foldlM_tokens [] []
  rw [evaluatePostfix, words_intercalate tree.isWord_of_mem_tokens, hfold,
    bind_assoc]
  simp only [pure_bind, Reduced.readOperand_text]
  rfl

/-- The postfix form of a text that writes a tree is the tree in post-order, and
the calculation of the text has the value or the error of the tree. -/
theorem calculate_eq_evaluate {tree : ExpressionTree} {text : String}
    (hwritten : tree.Infix 0 text.toList) :
    (toPostfix text).map postfixText = .ok (" ".intercalate tree.tokens) ∧
      calculate Int64 text = tree.evaluate Int64 := by
  have hform := hwritten.toPostfix_eq
  constructor
  · rw [hform]
    rfl
  · rw [calculate, hform]
    exact tree.evaluatePostfix_tokens

/-- A name that is no number, to be added to a remainder by zero. -/
def namePlusRemainder : ExpressionTree :=
  .node .add (.leaf ⟨"-x", ['x'], by simp, List.forall_mem_singleton.mpr rfl,
      .inr rfl⟩)
    (.node .mod
      (.leaf ⟨"9", ['9'], by simp, List.forall_mem_singleton.mpr rfl, .inl rfl⟩)
      (.leaf ⟨"0", ['0'], by simp, List.forall_mem_singleton.mpr rfl, .inl rfl⟩))

/-- The remainder fails before the name is read. -/
theorem namePlusRemainder_divides_by_zero :
    namePlusRemainder.Infix 0 "-x +9%( 0 )".toList ∧
      (toPostfix "-x +9%( 0 )").map postfixText = .ok "-x 9 0 % +" ∧
      calculate Int64 "-x +9%( 0 )" = .error .divisionByZero := by
  have hwritten : namePlusRemainder.Infix 0 "-x +9%( 0 )".toList :=
    @Infix.node 0 _ _ _ "-x ".toList "9%( 0 )".toList (by decide)
      (.blankAfter .leaf rfl)
      (.node (by decide) .leaf
        (.group (.blankBefore rfl (.blankAfter .leaf rfl))))
  obtain ⟨hform, hvalue⟩ := calculate_eq_evaluate hwritten
  refine ⟨hwritten, ?_, ?_⟩
  · rw [hform]
    rfl
  · rw [hvalue]
    rfl

end ExpressionTree

end LineScript
