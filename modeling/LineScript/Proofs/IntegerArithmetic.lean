/-
Integer operations of the language are exact.  Two integers are combined by
writing both into an expression text and calculating that text.  The text of an
integer is an operand, with its sign glued to it, so the text writes the tree of
one operator over the two integers, and both read back as they were.  What comes
out is the mathematical result wherever that fits into 64 bits, and an error that
tells why otherwise.
-/
import Mathlib.Algebra.Ring.Int.Defs
import LineScript.ExpressionValue
import LineScript.Proofs.AcceptedExpressions

namespace LineScript

theorem isOperandChar_of_isDigit {c : Char} (hdigit : c.isDigit = true) :
    isOperandChar c = true := by
  have hcode : 48 ≤ c.toNat ∧ c.toNat ≤ 57 := Char.isDigit_iff_toNat.mp hdigit
  refine isOperandChar_iff.mpr ⟨?_, ?_, ?_, ?_⟩
  · simp [isBlank, blankRanges]
    omega
  · rintro rfl
    contradiction
  · rintro rfl
    contradiction
  · cases hop : Operator.ofChar? c with
    | none => rfl
    | some op =>
        obtain rfl := Operator.symbol_of_ofChar? hop
        cases op <;> contradiction

theorem integerText_written (value : Int64) :
    ∃ run, run ≠ [] ∧ (∀ c ∈ run, isOperandChar c = true) ∧
      ((integerText value).toList = run ∨
        (integerText value).toList = '-' :: run) := by
  obtain ⟨digits, hnonempty, hdigits, htext⟩ := integerText_digits value
  exact ⟨digits, hnonempty,
    fun c hc => isOperandChar_of_isDigit (hdigits c hc), htext⟩

/-- An integer as an operand. -/
def OperandText.ofInteger (value : Int64) : OperandText :=
  ⟨integerText value, integerText_written value⟩

theorem isWord_integerText (value : Int64) : IsWord (integerText value) :=
  (OperandText.ofInteger value).isWord_text

/-- One operator between two integers. -/
def ExpressionTree.ofIntegers (op : Operator) (left right : Int64) :
    ExpressionTree :=
  .node op (.leaf (.ofInteger left)) (.leaf (.ofInteger right))

theorem ExpressionTree.ofIntegers_written (op : Operator)
    (left right : Int64) :
    (ofIntegers op left right).Infix 0
      ((integerText left).toList ++ ' ' ::
        op.symbol :: ' ' :: (integerText right).toList) := by
  have hleft : Infix op.precedence (.leaf (.ofInteger left))
      ((integerText left).toList ++ [' ']) := .blankAfter .leaf rfl
  have hright : Infix (op.precedence + 1) (.leaf (.ofInteger right))
      (' ' :: (integerText right).toList) := .blankBefore rfl .leaf
  have hnode : (ofIntegers op left right).Infix 0
      (((integerText left).toList ++ [' ']) ++
        op.symbol :: ' ' :: (integerText right).toList) :=
    .node (Nat.zero_le _) hleft hright
  rwa [List.append_assoc, List.singleton_append] at hnode

theorem readOperand_integerText (value : Int64) :
    readOperand Int64 (integerText value) = .ok value := by
  have hread : Operand.read? (integerText value) = some value :=
    LawfulOperand.read?_text value
  rw [readOperand, hread]

theorem ExpressionTree.evaluate_ofIntegers (op : Operator)
    (left right : Int64) :
    (ofIntegers op left right).evaluate Int64 =
      applyInteger op left right := by
  have hleft := readOperand_integerText left
  have hright := readOperand_integerText right
  have happly : Operand.apply op left right = applyInteger op left right := rfl
  simp only [evaluate, reduce, ofIntegers, Reduced.read, OperandText.ofInteger,
    hleft, hright, happly, bind, Except.bind]
  cases applyInteger op left right with
  | error fault => rfl
  | ok value => rfl

theorem combineValues_integers {left right : Int64} {token : String}
    {hint : Option Kind} (hhint : hint ≠ some .double) :
    combineValues (.int left) token (.int right) hint =
      calculated ((calculate Int64
        s!"{integerText left} {token} {integerText right}").map Value.int) := by
  simp [combineValues, Value.kind, Value.render, hhint]

/-- An operator between two integers does with their texts what it does with the
integers. -/
theorem binaryValue_integers (op : Operator) (left right : Int64)
    {hint : Option Kind} (hhint : hint ≠ some .double) :
    binaryValue (.int left) (String.singleton op.symbol) (.int right) hint =
      calculated ((applyInteger op left right).map Value.int) := by
  obtain ⟨hempty, hrelational, hconnective⟩ :
      String.singleton op.symbol ≠ "" ∧
        isRelational (String.singleton op.symbol) = false ∧
        isConnective (String.singleton op.symbol) = false := by
    cases op <;> decide
  let symbol := String.singleton op.symbol
  have htext :
      (s!"{integerText left} {symbol} {integerText right}").toList =
        (integerText left).toList ++ ' ' ::
          op.symbol :: ' ' :: (integerText right).toList := by
    simp [symbol, toString]
  have hwritten := ExpressionTree.ofIntegers_written op left right
  rw [← htext] at hwritten
  have hvalue := hwritten.calculate_eq.trans
    (ExpressionTree.evaluate_ofIntegers op left right)
  rw [binaryValue, if_neg hempty, if_neg (by simp [hrelational]),
    if_neg (by simp [hconnective]), if_pos (by simp),
    combineValues_integers hhint, hvalue]

/-- An integer of 64 bits can have this value. -/
def FitsInteger (value : Int) : Prop :=
  -2 ^ 63 ≤ value ∧ value < 2 ^ 63

instance (value : Int) : Decidable (FitsInteger value) :=
  inferInstanceAs (Decidable (_ ∧ _))

theorem fitsInteger_toInt (value : Int64) : FitsInteger value.toInt :=
  ⟨value.le_toInt, value.toInt_lt⟩

theorem toInt_ofInt_of_fits {value : Int} (hfits : FitsInteger value) :
    (Int64.ofInt value).toInt = value :=
  Int64.toInt_ofInt_of_le hfits.1 hfits.2

theorem integerInRange?_eq (value : Int) :
    integerInRange? value =
      if FitsInteger value then some (Int64.ofInt value) else none := by
  have hiff : (Int64.minValue.toInt ≤ value ∧
      value ≤ Int64.maxValue.toInt) ↔ FitsInteger value := by
    have hleast : Int64.minValue.toInt = -9223372036854775808 := rfl
    have hgreatest : Int64.maxValue.toInt = 9223372036854775807 := rfl
    simp only [FitsInteger, hleast, hgreatest]
    omega
  simp only [integerInRange?, hiff]

/-- The exact result of an operation on integers, behind the value that has to
fit into 64 bits for there to be one: the result itself, or the quotient if the
operation is a remainder.  Quotients go toward zero, and a remainder has the sign
of the dividend. -/
inductive ExactResult (left right : Int) : Operator → Int → Int → Prop
  | sum : ExactResult left right .add (left + right) (left + right)
  | difference : ExactResult left right .sub (left - right) (left - right)
  | product : ExactResult left right .mul (left * right) (left * right)
  | quotient :
    right ≠ 0 →
      ExactResult left right .div (left.tdiv right) (left.tdiv right)
  | remainder :
    right ≠ 0 →
      ExactResult left right .mod (left.tdiv right) (left.tmod right)

theorem integerResult?_of_exact {left right : Int64} {op : Operator}
    {bounded result : Int}
    (hexact : ExactResult left.toInt right.toInt op bounded result) :
    integerResult? op left right =
      if FitsInteger bounded then some (Int64.ofInt result) else none := by
  cases hexact with
  | sum | difference | product | quotient _ =>
      exact integerInRange?_eq _
  | remainder _ =>
      simp only [integerResult?, integerInRange?_eq]
      split
      · rfl
      · rfl

theorem applyInteger_of_exact {left right : Int64} {op : Operator}
    {bounded result : Int}
    (hexact : ExactResult left.toInt right.toInt op bounded result) :
    applyInteger op left right =
      if FitsInteger bounded then .ok (Int64.ofInt result)
      else .error (.overflow op.symbol) := by
  have hdivisor : ¬ ((op = .div ∨ op = .mod) ∧ right = 0) := by
    rintro ⟨hop, rfl⟩
    cases hexact with
    | sum | difference | product => simp at hop
    | quotient hzero | remainder hzero => exact hzero rfl
  rw [applyInteger, if_neg hdivisor, integerResult?_of_exact hexact]
  by_cases hfits : FitsInteger bounded
  · rw [if_pos hfits, if_pos hfits]
  · rw [if_neg hfits, if_neg hfits]

theorem applyInteger_eq_overflow_iff {left right : Int64} {op : Operator}
    {bounded result : Int}
    (hexact : ExactResult left.toInt right.toInt op bounded result) :
    applyInteger op left right = .error (.overflow op.symbol) ↔
      ¬ FitsInteger bounded := by
  rw [applyInteger_of_exact hexact]
  split
  · next hfits => simp [hfits]
  · next hfits => simp [hfits]

/-- A result is in range when the value that has to be is. -/
theorem ExactResult.fits {left right : Int64} {op : Operator}
    {bounded result : Int}
    (hexact : ExactResult left.toInt right.toInt op bounded result)
    (hfits : FitsInteger bounded) : FitsInteger result := by
  cases hexact with
  | sum | difference | product | quotient _ => exact hfits
  | remainder hzero =>
      -- The remainder is smaller than the divisor, which has 64 bits.
      have hmagnitude := Int.natAbs_tmod left.toInt right.toInt
      have hpositive : 0 < right.toInt.natAbs := Int.natAbs_pos.mpr hzero
      have hsmaller := Nat.mod_lt left.toInt.natAbs hpositive
      have hright := fitsInteger_toInt right
      simp only [FitsInteger] at hright ⊢
      omega

/-- Only the least integer divided by minus one has a quotient out of range. -/
theorem not_fitsInteger_tdiv_iff {dividend divisor : Int}
    (hfits : FitsInteger dividend) :
    ¬ FitsInteger (dividend.tdiv divisor) ↔
      dividend = -2 ^ 63 ∧ divisor = -1 := by
  constructor
  · intro hout
    by_cases hunit : divisor = -1
    · subst hunit
      rw [Int.tdiv_neg, Int.tdiv_one] at hout
      simp only [FitsInteger] at hfits hout
      omega
    · -- Any other divisor keeps the quotient between zero and the dividend, or
      -- halves it at least.
      exfalso
      apply hout
      obtain rfl | rfl | hlarge :
          divisor = 0 ∨ divisor = 1 ∨ 2 ≤ divisor.natAbs := by omega
      · rw [Int.tdiv_zero]
        decide
      · rw [Int.tdiv_one]
        exact hfits
      · have hquotient := Int.natAbs_tdiv dividend divisor
        have hhalf : dividend.natAbs.div divisor.natAbs ≤ dividend.natAbs / 2 :=
          Nat.div_le_div_left hlarge (by decide)
        simp only [FitsInteger] at hfits ⊢
        omega
  · rintro ⟨rfl, rfl⟩
    decide

/-- A power has no exact result, and a zero divisor gives none. -/
theorem exists_exactResult {op : Operator} (left : Int64) {right : Int64}
    (hpower : op ≠ .pow) (hdivisor : ¬ ((op = .div ∨ op = .mod) ∧ right = 0)) :
    ∃ bounded result,
      ExactResult left.toInt right.toInt op bounded result := by
  have hzero (hop : op = .div ∨ op = .mod) : right.toInt ≠ 0 := by
    intro hright
    exact hdivisor ⟨hop, Int64.toInt_inj.mp hright⟩
  cases op with
  | add => exact ⟨_, _, .sum⟩
  | sub => exact ⟨_, _, .difference⟩
  | mul => exact ⟨_, _, .product⟩
  | div => exact ⟨_, _, .quotient (hzero (Or.inl rfl))⟩
  | mod => exact ⟨_, _, .remainder (hzero (Or.inr rfl))⟩
  | pow => contradiction

theorem calculated_map_eq_error_iff {α : Type}
    {outcome : Except CalculationError α} {change : α → Value}
    {error : CalculationError} :
    calculated (outcome.map change) = .error (.calculation error) ↔
      outcome = .error error := by
  cases outcome with
  | error other => simp [calculated, Except.map, Except.mapError]
  | ok value => simp [calculated, Except.map, Except.mapError]

/-- The relation between integers that a comparison stands for. -/
def Comparison.Relates : Comparison → Int → Int → Prop
  | equal => (· = ·)
  | unequal => (· ≠ ·)
  | atLeast => (· ≥ ·)
  | above => (· > ·)
  | atMost => (· ≤ ·)
  | below => (· < ·)

instance : ∀ (comparison : Comparison) (left right : Int),
    Decidable (comparison.Relates left right)
  | .equal, left, right => inferInstanceAs (Decidable (left = right))
  | .unequal, left, right => inferInstanceAs (Decidable (left ≠ right))
  | .atLeast, left, right => inferInstanceAs (Decidable (left ≥ right))
  | .above, left, right => inferInstanceAs (Decidable (left > right))
  | .atMost, left, right => inferInstanceAs (Decidable (left ≤ right))
  | .below, left, right => inferInstanceAs (Decidable (left < right))

theorem integerHolds_eq (comparison : Comparison) (left right : Int64) :
    integerHolds comparison left right =
      decide (comparison.Relates left.toInt right.toInt) := by
  cases comparison with
  | equal => exact decide_eq_decide.mpr Int64.toInt_inj.symm
  | unequal => exact decide_eq_decide.mpr (not_congr Int64.toInt_inj.symm)
  | atLeast | atMost => exact decide_eq_decide.mpr Int64.le_iff_toInt_le
  | above | below => exact decide_eq_decide.mpr Int64.lt_iff_toInt_lt

theorem compareValues_integers (comparison : Comparison)
    (left right : Int64) :
    compareValues (.int left) comparison.symbol (.int right) =
      .ok (decide (comparison.Relates left.toInt right.toInt)) := by
  have hcompared : compareTexts Int64 (integerText left) (integerText right)
      comparison.symbol = .ok (integerHolds comparison left right) := by
    simp only [compareTexts, readOperand_integerText,
      Comparison.ofToken?_symbol]
    rfl
  simp only [compareValues, Value.render, hcompared, integerHolds_eq]
  rfl

/-- Integers are combined as mathematics has it, unless a double is asked for.
An operator other than the power fails for a zero divisor, fails with an overflow
exactly if its result (or the quotient that belongs to a remainder) has more than
64 bits, and gives the exact result otherwise.  A power is what the integer power
is, and the comparisons are those of the integers. -/
theorem integer_operations_are_exact (left right : Int64)
    {hint : Option Kind} (hhint : hint ≠ some .double) :
    (∀ op, op ≠ .pow →
      let outcome := binaryValue (.int left) (String.singleton op.symbol)
        (.int right) hint
      (outcome = .error (.calculation .divisionByZero) ↔
        (op = .div ∨ op = .mod) ∧ right = 0) ∧
      (op = .div ∨ op = .mod →
        (outcome = .error (.calculation (.overflow op.symbol)) ↔
          left.toInt = -2 ^ 63 ∧ right.toInt = -1)) ∧
      (¬ ((op = .div ∨ op = .mod) ∧ right = 0) →
        ∃ bounded result,
          ExactResult left.toInt right.toInt op bounded result ∧
          (outcome = .error (.calculation (.overflow op.symbol)) ↔
            ¬ FitsInteger bounded) ∧
          (FitsInteger bounded →
            ∃ value, outcome = .ok (.int value) ∧ value.toInt = result))) ∧
    binaryValue (.int left) (String.singleton Operator.pow.symbol) (.int right)
        hint = calculated ((applyInteger .pow left right).map Value.int) ∧
    ∀ comparison : Comparison,
      compareValues (.int left) comparison.symbol (.int right) =
        .ok (decide (comparison.Relates left.toInt right.toInt)) := by
  refine ⟨?_, binaryValue_integers .pow left right hhint,
    fun comparison => compareValues_integers comparison left right⟩
  intro op hpower
  simp only [binaryValue_integers op left right hhint,
    calculated_map_eq_error_iff]
  by_cases hdivisor : (op = .div ∨ op = .mod) ∧ right = 0
  · have hfailed : applyInteger op left right = .error .divisionByZero :=
      if_pos hdivisor
    refine ⟨iff_of_true hfailed hdivisor, ?_, ?_⟩
    · intro _
      rw [hfailed, hdivisor.2]
      exact iff_of_false (by simp) (by simp)
    · intro hnonzero
      exact absurd hdivisor hnonzero
  · obtain ⟨bounded, result, hexact⟩ :=
      exists_exactResult left hpower hdivisor
    have hoverflow := applyInteger_eq_overflow_iff hexact
    refine ⟨iff_of_false ?_ hdivisor, ?_, ?_⟩
    · rw [applyInteger_of_exact hexact]
      split
      · simp
      · simp
    · intro hop
      rw [hoverflow, ← not_fitsInteger_tdiv_iff (fitsInteger_toInt left)]
      cases hexact with
      | sum | difference | product => simp at hop
      | quotient _ | remainder _ => rfl
    · intro _
      refine ⟨bounded, result, hexact, hoverflow, ?_⟩
      intro hfits
      refine ⟨Int64.ofInt result, ?_, toInt_ofInt_of_fits (hexact.fits hfits)⟩
      rw [applyInteger_of_exact hexact, if_pos hfits]
      rfl

/-- The least integer less minus one is in range.  Its remainder by minus one is
refused, although that would be zero. -/
theorem leastInteger_by_minus_one :
    (∃ value, binaryValue (.int Int64.minValue) "-" (.int (-1)) (some .int) =
        .ok (.int value) ∧ value.toInt = -9223372036854775807) ∧
    binaryValue (.int Int64.minValue) "%" (.int (-1)) (some .int) =
      .error (.calculation (.overflow '%')) ∧
    compareValues (.int Int64.minValue) "<" (.int (-1)) = .ok true := by
  have hhint : some Kind.int ≠ some .double := by decide
  obtain ⟨hoperators, _, hcomparisons⟩ :=
    integer_operations_are_exact Int64.minValue (-1) hhint
  refine ⟨?_, ?_, hcomparisons .below⟩
  · obtain ⟨_, _, hresult⟩ := hoperators .sub (by decide)
    obtain ⟨_, _, ⟨⟩, _, hvalue⟩ := hresult (by decide)
    exact hvalue (by decide)
  · obtain ⟨_, hoverflow, _⟩ := hoperators .mod (by decide)
    exact (hoverflow (Or.inr rfl)).mpr (by decide)

end LineScript
