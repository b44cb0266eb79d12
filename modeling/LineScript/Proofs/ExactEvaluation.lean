/-
Calculations on integer literals are exact or refused.  The tree of such a
calculation has an exact value, which is computed here on integers without
bounds.  The calculation of a text that writes the tree comes to that value when
no operation of the tree offends: none divides by zero, none has a result of more
than 64 bits, and none is the remainder of the least integer by minus one.
Otherwise it fails as the first operation does that offends, however the
operations behind it would go on.
-/
import LineScript.Proofs.IntegerArithmetic

namespace LineScript

/-- A decimal integer of 64 bits as it is written: digits, which may start with
zeros, and a minus sign in front of them or not. -/
structure IntegerLiteral where
  negative : Bool
  digits : List Char
  digits_ne_nil : digits ≠ [] := by decide
  all_isDigit : digits.all Char.isDigit = true := by decide
  fits : FitsInteger
    (if negative then -(Nat.ofDigitChars 10 digits 0 : Int)
    else (Nat.ofDigitChars 10 digits 0 : Int)) := by decide

namespace IntegerLiteral

theorem isDigit_of_mem (literal : IntegerLiteral) :
    ∀ c ∈ literal.digits, c.isDigit = true :=
  List.all_eq_true.mp literal.all_isDigit

/-- The integer that a literal writes. -/
def value (literal : IntegerLiteral) : Int :=
  if literal.negative then -(Nat.ofDigitChars 10 literal.digits 0 : Int)
  else (Nat.ofDigitChars 10 literal.digits 0 : Int)

def text (literal : IntegerLiteral) : String :=
  String.ofList
    (if literal.negative then '-' :: literal.digits else literal.digits)

/-- A literal as an operand. -/
def operand (literal : IntegerLiteral) : OperandText where
  text := literal.text
  written := by
    refine ⟨literal.digits, literal.digits_ne_nil, ?_, ?_⟩
    · intro c hc
      exact isOperandChar_of_isDigit (literal.isDigit_of_mem c hc)
    · unfold text
      split
      · exact Or.inr String.toList_ofList
      · exact Or.inl String.toList_ofList

theorem fits_value (literal : IntegerLiteral) : FitsInteger literal.value :=
  literal.fits

theorem readInteger_text (literal : IntegerLiteral) :
    readInteger literal.text = .ok (Int64.ofInt literal.value) := by
  have hfits := literal.fits
  unfold text value
  split
  · next hnegative =>
    rw [if_pos hnegative] at hfits
    have hbound : Nat.ofDigitChars 10 literal.digits 0 ≤ integerBound := by
      simp only [FitsInteger, integerBound] at hfits ⊢
      omega
    exact readInteger_signed literal.digits_ne_nil literal.isDigit_of_mem hbound
  · next hnegative =>
    rw [if_neg hnegative] at hfits
    have hbound : Nat.ofDigitChars 10 literal.digits 0 < integerBound := by
      simp only [FitsInteger, integerBound] at hfits ⊢
      omega
    exact readInteger_unsigned literal.digits_ne_nil literal.isDigit_of_mem
      hbound

theorem readOperand_operand (literal : IntegerLiteral) :
    readOperand Int64 literal.operand.text =
      .ok (Int64.ofInt literal.value) := by
  have hread : Operand.read? literal.text =
      some (Int64.ofInt literal.value) := by
    simp [Operand.read?, literal.readInteger_text, Except.toOption]
  rw [operand, readOperand, hread]

end IntegerLiteral

/-- The operators whose results on integers are integers: all but the power. -/
inductive ExactOperator
  | add | sub | mul | div | mod
  deriving DecidableEq, Repr

namespace ExactOperator

def operator : ExactOperator → Operator
  | add => .add
  | sub => .sub
  | mul => .mul
  | div => .div
  | mod => .mod

/-- The exact result.  Quotients go toward zero, and a remainder has the sign of
the dividend. -/
def result : ExactOperator → Int → Int → Int
  | add, left, right => left + right
  | sub, left, right => left - right
  | mul, left, right => left * right
  | div, left, right => left.tdiv right
  | mod, left, right => left.tmod right

/-- The right operand is a divisor. -/
def divides : ExactOperator → Bool
  | div | mod => true
  | _ => false

end ExactOperator

/-- One operation on integers without bounds. -/
structure IntegerOperation where
  op : ExactOperator
  left : Int
  right : Int
  deriving DecidableEq, Repr

namespace IntegerOperation

def result (operation : IntegerOperation) : Int :=
  operation.op.result operation.left operation.right

def DividesByZero (operation : IntegerOperation) : Prop :=
  operation.op.divides = true ∧ operation.right = 0

/-- The remainder whose quotient has more than 64 bits, although it is zero
itself. -/
def IsLeastByMinusOne (operation : IntegerOperation) : Prop :=
  operation.op = .mod ∧ operation.left = -2 ^ 63 ∧ operation.right = -1

instance : DecidablePred DividesByZero :=
  fun _ => inferInstanceAs (Decidable (_ ∧ _))

instance : DecidablePred IsLeastByMinusOne :=
  fun _ => inferInstanceAs (Decidable (_ ∧ _ ∧ _))

/-- The operation does not offend. -/
def Allowed (operation : IntegerOperation) : Prop :=
  ¬ operation.DividesByZero ∧ FitsInteger operation.result ∧
    ¬ operation.IsLeastByMinusOne

instance : DecidablePred Allowed :=
  fun _ => inferInstanceAs (Decidable (_ ∧ _ ∧ _))

/-- What is wrong with an operation that offends. -/
def offence (operation : IntegerOperation) : CalculationError :=
  if operation.DividesByZero then .divisionByZero
  else .overflow operation.op.operator.symbol

/-- What is wrong with an operation, if anything is. -/
def offence? (operation : IntegerOperation) : Option CalculationError :=
  if operation.Allowed then none else some operation.offence

theorem offence?_eq_none_iff {operation : IntegerOperation} :
    operation.offence? = none ↔ operation.Allowed := by
  simp [offence?]

theorem offence?_eq_some_iff {operation : IntegerOperation}
    {error : CalculationError} :
    operation.offence? = some error ↔
      ¬ operation.Allowed ∧ error = operation.offence := by
  simp [offence?, eq_comm]

/-- The value that has to fit into 64 bits: the result, or the quotient that
belongs to a remainder. -/
def bounded (operation : IntegerOperation) : Int :=
  if operation.op = .mod then operation.left.tdiv operation.right
  else operation.result

theorem exactResult {operation : IntegerOperation}
    (hdivisor : ¬ operation.DividesByZero) :
    ExactResult operation.left operation.right operation.op.operator
      operation.bounded operation.result := by
  obtain ⟨op, left, right⟩ := operation
  cases op with
  | add => exact .sum
  | sub => exact .difference
  | mul => exact .product
  | div => exact .quotient fun hzero => hdivisor ⟨rfl, hzero⟩
  | mod => exact .remainder fun hzero => hdivisor ⟨rfl, hzero⟩

end IntegerOperation

/-- One operation on two integers of 64 bits. -/
def ExactOperator.on (op : ExactOperator) (left right : Int64) :
    IntegerOperation :=
  ⟨op, left.toInt, right.toInt⟩

section Applied

variable {op : ExactOperator} {left right : Int64}

theorem exactResult_on (hdivisor : ¬ (op.on left right).DividesByZero) :
    ExactResult left.toInt right.toInt op.operator
      (op.on left right).bounded (op.on left right).result :=
  IntegerOperation.exactResult hdivisor

/-- The quotient of a remainder fits unless it is the one of the least integer by
minus one. -/
theorem fitsInteger_bounded_iff (hdivisor : ¬ (op.on left right).DividesByZero) :
    FitsInteger (op.on left right).bounded ↔ (op.on left right).Allowed := by
  have hquotient : ¬ FitsInteger (left.toInt.tdiv right.toInt) ↔
      left.toInt = -2 ^ 63 ∧ right.toInt = -1 :=
    not_fitsInteger_tdiv_iff (fitsInteger_toInt left)
  constructor
  · intro hbounded
    refine ⟨hdivisor, (exactResult_on hdivisor).fits hbounded, ?_⟩
    rintro ⟨hmod, hleast⟩
    rw [IntegerOperation.bounded, if_pos hmod] at hbounded
    exact hquotient.mpr hleast hbounded
  · rintro ⟨_, hresult, hremainder⟩
    unfold IntegerOperation.bounded
    split
    · next hmod =>
      by_contra hout
      exact hremainder ⟨hmod, hquotient.mp hout⟩
    · exact hresult

theorem dividesByZero_on_iff :
    (op.on left right).DividesByZero ↔
      (op.operator = .div ∨ op.operator = .mod) ∧ right = 0 := by
  have hzero : right.toInt = 0 ↔ right = 0 := Int64.toInt_inj (y := 0)
  cases op <;>
    simp [IntegerOperation.DividesByZero, ExactOperator.on,
      ExactOperator.divides, ExactOperator.operator, hzero]

theorem applyInteger_of_allowed (hallowed : (op.on left right).Allowed) :
    ∃ value, applyInteger op.operator left right = .ok value ∧
      value.toInt = (op.on left right).result := by
  have hbounded := (fitsInteger_bounded_iff hallowed.1).mpr hallowed
  refine ⟨Int64.ofInt (op.on left right).result, ?_,
    toInt_ofInt_of_fits hallowed.2.1⟩
  rw [applyInteger_of_exact (exactResult_on hallowed.1), if_pos hbounded]

theorem applyInteger_of_not_allowed
    (hoffends : ¬ (op.on left right).Allowed) :
    applyInteger op.operator left right =
      .error (op.on left right).offence := by
  unfold IntegerOperation.offence
  by_cases hdivisor : (op.on left right).DividesByZero
  · rw [if_pos hdivisor, applyInteger, if_pos (dividesByZero_on_iff.mp hdivisor)]
  · have hbounded := mt (fitsInteger_bounded_iff hdivisor).mp hoffends
    rw [if_neg hdivisor, applyInteger_of_exact (exactResult_on hdivisor),
      if_neg hbounded]
    rfl

end Applied

/-- A calculation on integer literals without powers. -/
inductive IntegerTree
  | leaf (literal : IntegerLiteral)
  | node (op : ExactOperator) (left right : IntegerTree)

namespace IntegerTree

/-- The same calculation among all others. -/
def expression : IntegerTree → ExpressionTree
  | leaf literal => .leaf literal.operand
  | node op left right => .node op.operator left.expression right.expression

/-- The value on integers without bounds. -/
def exactValue : IntegerTree → Int
  | leaf literal => literal.value
  | node op left right => op.result left.exactValue right.exactValue

/-- The operation at the root of a tree with these sides. -/
def operationAt (op : ExactOperator) (left right : IntegerTree) :
    IntegerOperation :=
  ⟨op, left.exactValue, right.exactValue⟩

/-- The operations of a tree on their exact operands, in post-order. -/
def operations : IntegerTree → List IntegerOperation
  | leaf _ => []
  | node op left right =>
    left.operations ++ right.operations ++ [operationAt op left right]

/-- What is wrong with the first operation that offends. -/
def firstOffence? (tree : IntegerTree) : Option CalculationError :=
  tree.operations.findSome? IntegerOperation.offence?

theorem firstOffence?_node (op : ExactOperator) (left right : IntegerTree) :
    (node op left right).firstOffence? =
      (left.firstOffence?.or right.firstOffence?).or
        (operationAt op left right).offence? := by
  simp [firstOffence?, operations, List.findSome?_append, Option.or_assoc]

theorem firstOffence?_eq_none_iff {tree : IntegerTree} :
    tree.firstOffence? = none ↔
      ∀ operation ∈ tree.operations, operation.Allowed := by
  simp [firstOffence?, IntegerOperation.offence?_eq_none_iff]

theorem firstOffence?_eq_some_iff {tree : IntegerTree}
    {error : CalculationError} :
    tree.firstOffence? = some error ↔
      ∃ before operation after,
        tree.operations = before ++ operation :: after ∧
        (∀ earlier ∈ before, earlier.Allowed) ∧
        ¬ operation.Allowed ∧ error = operation.offence := by
  simp only [firstOffence?, List.findSome?_eq_some_iff,
    IntegerOperation.offence?_eq_none_iff,
    IntegerOperation.offence?_eq_some_iff]
  grind

/-- What the reduction of a tree comes to: something that reads as the exact
value, or the first offence. -/
inductive Ends (tree : IntegerTree) :
    Except CalculationError (Reduced Int64) → Prop
  | value {reduced : Reduced Int64} {value : Int64} :
    tree.firstOffence? = none → reduced.read = .ok value →
      value.toInt = tree.exactValue → Ends tree (.ok reduced)
  | offence {error : CalculationError} :
    tree.firstOffence? = some error → Ends tree (.error error)

/-- A node whose sides have values ends as its own operation on them does. -/
theorem ends_node (op : ExactOperator) {left right : IntegerTree}
    {leftValue rightValue : Int64}
    (hleft : left.firstOffence? = none) (hright : right.firstOffence? = none)
    (hleftValue : leftValue.toInt = left.exactValue)
    (hrightValue : rightValue.toInt = right.exactValue) :
    (node op left right).Ends
      ((applyInteger op.operator leftValue rightValue).map .result) := by
  have hoperation : operationAt op left right = op.on leftValue rightValue := by
    rw [ExactOperator.on, hleftValue, hrightValue, operationAt]
  have hfirst : (node op left right).firstOffence? =
      (op.on leftValue rightValue).offence? := by
    rw [firstOffence?_node, hleft, hright, hoperation]
    rfl
  by_cases hallowed : (op.on leftValue rightValue).Allowed
  · obtain ⟨value, happly, hvalue⟩ := applyInteger_of_allowed hallowed
    rw [happly]
    refine .value (hfirst.trans ?_) rfl (hvalue.trans ?_)
    · exact IntegerOperation.offence?_eq_none_iff.mpr hallowed
    · rw [← hoperation]
      rfl
  · rw [applyInteger_of_not_allowed hallowed]
    refine .offence (hfirst.trans ?_)
    exact IntegerOperation.offence?_eq_some_iff.mpr ⟨hallowed, rfl⟩

/-- A node fails as its left side does, then as its right side does, then as its
own operation on the values of both. -/
theorem ends_reduce (tree : IntegerTree) :
    tree.Ends (tree.expression.reduce Int64) := by
  induction tree with
  | leaf literal =>
      exact .value rfl literal.readOperand_operand
        (toInt_ofInt_of_fits literal.fits_value)
  | node op left right ihleft ihright =>
      simp only [expression, ExpressionTree.reduce]
      generalize left.expression.reduce Int64 = leftEnd at ihleft ⊢
      generalize right.expression.reduce Int64 = rightEnd at ihright ⊢
      cases ihleft with
      | offence hleft =>
          exact .offence (by rw [firstOffence?_node, hleft]; rfl)
      | @value leftReduced leftValue hleft hleftRead hleftValue =>
          cases ihright with
          | offence hright =>
              exact .offence (by rw [firstOffence?_node, hleft, hright]; rfl)
          | @value rightReduced rightValue hright hrightRead hrightValue =>
              have hends := ends_node op hleft hright hleftValue
                hrightValue
              simp only [bind, Except.bind, hleftRead, hrightRead]
              exact hends

theorem calculate_eq_or {tree : IntegerTree} {text : String}
    (hwritten : tree.expression.Infix 0 text.toList) :
    (∃ value, calculate Int64 text = .ok value ∧
      tree.firstOffence? = none ∧ value.toInt = tree.exactValue) ∨
    ∃ error, calculate Int64 text = .error error ∧
      tree.firstOffence? = some error := by
  have hends := tree.ends_reduce
  rw [hwritten.calculate_eq, ExpressionTree.evaluate]
  generalize tree.expression.reduce Int64 = ended at hends ⊢
  cases hends with
  | value hnone hread hvalue => exact Or.inl ⟨_, hread, hnone, hvalue⟩
  | offence hsome => exact Or.inr ⟨_, rfl, hsome⟩

/-- The calculation of a text that writes integer literals under operators other
than the power has a value exactly if no operation of the tree offends, and then
the value is the exact one.  It has an error exactly if some operation does, and
then the error is that of the first such operation in post-order. -/
theorem calculate_is_exact {tree : IntegerTree} {text : String}
    (hwritten : tree.expression.Infix 0 text.toList) :
    (∀ value, calculate Int64 text = .ok value ↔
      (∀ operation ∈ tree.operations, operation.Allowed) ∧
        value.toInt = tree.exactValue) ∧
    ∀ error, calculate Int64 text = .error error ↔
      ∃ before operation after,
        tree.operations = before ++ operation :: after ∧
        (∀ earlier ∈ before, earlier.Allowed) ∧
        ¬ operation.Allowed ∧ error = operation.offence := by
  simp only [← firstOffence?_eq_none_iff, ← firstOffence?_eq_some_iff]
  rcases calculate_eq_or hwritten with ⟨value, hvalue, hnone, hexact⟩ |
    ⟨error, herror, hsome⟩
  · rw [hvalue, hnone, ← hexact]
    refine ⟨fun other => ?_, fun other => by simp⟩
    rw [Except.ok.injEq, Int64.toInt_inj, eq_comm]
    simp
  · rw [herror, hsome]
    refine ⟨fun other => by simp, fun other => ?_⟩
    rw [Except.error.injEq, Option.some.injEq]

/-- The remainder of the least integer by a literal. -/
def leastRemainder (divisor : IntegerLiteral) : IntegerTree :=
  .node .mod
    (.leaf { negative := true, digits := "9223372036854775808".toList })
    (.leaf divisor)

/-- The remainder by minus one is refused, even where a factor of zero follows;
by another divisor it has its exact value. -/
theorem leastRemainder_is_exact :
    (node .mul (leastRemainder { negative := true, digits := ['1'] })
      (.leaf { negative := false, digits := ['0'] })).expression.Infix 0
        "(-9223372036854775808 % -1)*0".toList ∧
    calculate Int64 "(-9223372036854775808 % -1)*0" =
      .error (.overflow '%') ∧
    (leastRemainder { negative := true, digits := ['0', '7'] }).expression.Infix
      0 "-9223372036854775808%-07".toList ∧
    ∃ value, calculate Int64 "-9223372036854775808%-07" = .ok value ∧
      value.toInt = -1 := by
  have hrefused : (node .mul
      (leastRemainder { negative := true, digits := ['1'] })
      (.leaf { negative := false, digits := ['0'] })).expression.Infix 0
        "(-9223372036854775808 % -1)*0".toList :=
    @ExpressionTree.Infix.node 0 .mul _ _
      "(-9223372036854775808 % -1)".toList "0".toList (by decide)
      (.group (@ExpressionTree.Infix.node 0 .mod _ _
        "-9223372036854775808 ".toList " -1".toList (by decide)
        (.blankAfter .leaf rfl) (.blankBefore rfl .leaf)))
      .leaf
  have hexact : (leastRemainder
      { negative := true, digits := ['0', '7'] }).expression.Infix 0
        "-9223372036854775808%-07".toList :=
    @ExpressionTree.Infix.node 0 .mod _ _ "-9223372036854775808".toList
      "-07".toList (by decide) .leaf .leaf
  refine ⟨hrefused, ?_, hexact, Int64.ofInt (-1), ?_, by decide⟩
  · apply ((calculate_is_exact hrefused).2 _).mpr
    exact ⟨[], _, _, rfl, by simp, by decide, by decide⟩
  · apply ((calculate_is_exact hexact).1 _).mpr
    exact ⟨by decide, by decide⟩

end IntegerTree

end LineScript
