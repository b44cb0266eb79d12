/-
The power of two integers.  It is computed by a power function on doubles, of
which nothing is assumed here, and cut off toward zero; a double that is no number
or that is out of range is an overflow.  The range has one number too many: the
greatest integer of 64 bits has no double of its own, so the limit is the double
above it, and that one is taken for the greatest integer.
-/
import Mathlib.Algebra.Order.Field.Power
import Mathlib.Data.Rat.Floor
import Mathlib.Tactic.Linarith
import Mathlib.Tactic.NormNum
import Mathlib.Tactic.Positivity
import LineScript.Proofs.IntegerArithmetic

namespace LineScript

/-- The number that a double is, unless it is infinite or no number. -/
def exactValue? (value : Float) : Option ℚ :=
  match doubleParts value with
  | .finite false mantissa exponent => some (mantissa * 2 ^ exponent)
  | .finite true mantissa exponent => some (-(mantissa * 2 ^ exponent))
  | .infinite _ | .notANumber => none

/-- A number cut off toward zero. -/
def towardZero (number : ℚ) : Int :=
  if 0 ≤ number then ⌊number⌋ else ⌈number⌉

theorem towardZero_of_nonneg {number : ℚ} (hnumber : 0 ≤ number) :
    towardZero number = ⌊number⌋ :=
  if_pos hnumber

theorem towardZero_neg {number : ℚ} (hnumber : 0 ≤ number) :
    towardZero (-number) = -⌊number⌋ := by
  rcases hnumber.eq_or_lt with rfl | hpositive
  · rfl
  · have hnegative : ¬ 0 ≤ -number := by linarith
    rw [towardZero, if_neg hnegative, Int.ceil_neg]

theorem wholePart_eq_floor (mantissa : Nat) (exponent : Int) :
    (wholePart mantissa exponent : Int) = ⌊(mantissa : ℚ) * 2 ^ exponent⌋ := by
  by_cases hexponent : 0 ≤ exponent
  · obtain ⟨places, rfl⟩ := Int.eq_ofNat_of_zero_le hexponent
    have hnumber : (mantissa : ℚ) * 2 ^ (places : Int) =
        ((mantissa * 2 ^ places : Nat) : ℚ) := by
      push_cast
      rfl
    rw [wholePart, if_pos hexponent, Int.toNat_natCast, Nat.shiftLeft_eq,
      hnumber, Int.floor_natCast]
  · obtain ⟨places, hplaces⟩ :=
      Int.eq_ofNat_of_zero_le (show 0 ≤ -exponent by omega)
    obtain rfl : exponent = -(places : Int) := by omega
    have hnumber : (mantissa : ℚ) * 2 ^ (-(places : Int)) =
        ((mantissa : Int) : ℚ) / ((2 ^ places : Nat) : ℚ) := by
      push_cast
      rw [zpow_neg, zpow_natCast, div_eq_mul_inv]
    rw [wholePart, if_neg hexponent, neg_neg, Int.toNat_natCast,
      Nat.shiftRight_eq_div_pow, hnumber, Rat.floor_intCast_div_natCast]
    push_cast
    rfl

/-- Cutting off the bits of a double cuts off the number that it is. -/
theorem truncateDouble?_eq (value : Float) :
    truncateDouble? value = (exactValue? value).map towardZero := by
  have hnonneg (mantissa : Nat) (exponent : Int) :
      0 ≤ (mantissa : ℚ) * 2 ^ exponent := by positivity
  unfold truncateDouble? exactValue?
  rcases doubleParts value with ⟨_ | _, mantissa, exponent⟩ | _ | _
  · simp only [Option.map_some, wholePart_eq_floor,
      towardZero_of_nonneg (hnonneg mantissa exponent)]
  · simp only [Option.map_some, wholePart_eq_floor,
      towardZero_neg (hnonneg mantissa exponent)]
  · rfl
  · rfl

theorem mantissa_lt {value : Float} {negative : Bool} {mantissa : Nat}
    {exponent : Int}
    (hparts : doubleParts value = .finite negative mantissa exponent) :
    mantissa < 2 ^ 53 := by
  have hfraction : value.toBits.toNat % leadingBit < leadingBit :=
    Nat.mod_lt _ (by decide)
  have hleading : leadingBit = 2 ^ 52 := rfl
  simp only [doubleParts] at hparts
  split at hparts
  · split at hparts <;> contradiction
  · split at hparts
    · obtain ⟨_, rfl, _⟩ := DoubleParts.finite.inj hparts
      omega
    · obtain ⟨_, rfl, _⟩ := DoubleParts.finite.inj hparts
      omega

/-- A double from `2 ^ 53` on has no fraction. -/
theorem exists_natCast_of_large {value : Float} {exact : ℚ}
    (hvalue : exactValue? value = some exact) (hlarge : 2 ^ 53 ≤ exact) :
    ∃ whole : Nat, exact = whole := by
  unfold exactValue? at hvalue
  split at hvalue
  · next mantissa exponent hparts =>
    obtain rfl := Option.some.inj hvalue
    have hmantissa : (mantissa : ℚ) < 2 ^ 53 := by
      exact_mod_cast mantissa_lt hparts
    have hexponent : 0 ≤ exponent := by
      by_contra hnegative
      have hscale : (2 : ℚ) ^ exponent ≤ 1 :=
        zpow_le_one_of_nonpos₀ (by norm_num) (by omega)
      have hsmall : (mantissa : ℚ) * 2 ^ exponent ≤ mantissa :=
        mul_le_of_le_one_right (by positivity) hscale
      linarith
    obtain ⟨places, rfl⟩ := Int.eq_ofNat_of_zero_le hexponent
    exact ⟨mantissa * 2 ^ places, by push_cast; rfl⟩
  · next mantissa exponent _ =>
    obtain rfl := Option.some.inj hvalue
    have hnonneg : 0 ≤ (mantissa : ℚ) * 2 ^ exponent := by positivity
    norm_num at hlarge
    linarith
  · contradiction
  · contradiction

theorem towardZero_bound : towardZero (2 ^ 63) = 2 ^ 63 := by
  have hnumber : (2 ^ 63 : ℚ) = ((2 ^ 63 : Nat) : ℚ) := by norm_num
  rw [towardZero_of_nonneg (by positivity), hnumber, Int.floor_natCast]
  rfl

/-- The double above the greatest integer is the only one that is cut off to the
number above the greatest integer. -/
theorem towardZero_eq_bound_iff {value : Float} {exact : ℚ}
    (hvalue : exactValue? value = some exact) :
    towardZero exact = 2 ^ 63 ↔ exact = 2 ^ 63 := by
  constructor
  · intro hbound
    have hnonneg : 0 ≤ exact := by
      by_contra hnegative
      have hceil : ⌈exact⌉ ≤ 0 := Int.ceil_le.mpr (by push_cast; linarith)
      rw [towardZero, if_neg hnegative] at hbound
      omega
    rw [towardZero_of_nonneg hnonneg] at hbound
    have hlarge : (2 ^ 63 : ℚ) ≤ exact := by
      exact_mod_cast Int.le_floor.mp hbound.ge
    obtain ⟨whole, rfl⟩ := exists_natCast_of_large hvalue (by linarith)
    rw [Int.floor_natCast] at hbound
    exact_mod_cast hbound
  · rintro rfl
    exact towardZero_bound

/-- The outcome of a power that is cut off toward zero and refused where it is no
number or has more than 64 bits. -/
def truncatedPower (power : Option ℚ) : Except CalculationError Int64 :=
  match power with
  | none => .error (.overflow Operator.pow.symbol)
  | some exact =>
    if FitsInteger (towardZero exact) then .ok (Int64.ofInt (towardZero exact))
    else .error (.overflow Operator.pow.symbol)

/-- The integer power that belongs to a power function on doubles. -/
def raiseInteger (power : Float → Float → Float) (base exponent : Int64) :
    Except CalculationError Int64 :=
  match integerPower? power base exponent with
  | some value => .ok value
  | none => .error (.overflow Operator.pow.symbol)

theorem applyInteger_pow (base exponent : Int64) :
    applyInteger .pow base exponent = raiseInteger Float.pow base exponent :=
  rfl

theorem truncatedPower_eq_ok_iff {power : Option ℚ} {value : Int64} :
    truncatedPower power = .ok value ↔
      ∃ exact, power = some exact ∧ value.toInt = towardZero exact := by
  cases power with
  | none => simp [truncatedPower]
  | some exact =>
      simp only [truncatedPower, Option.some.injEq, exists_eq_left']
      constructor
      · intro hvalue
        split at hvalue
        · next hfits =>
          rw [← Except.ok.inj hvalue, toInt_ofInt_of_fits hfits]
        · contradiction
      · intro hvalue
        rw [← hvalue, if_pos (fitsInteger_toInt value), Int64.ofInt_toInt]

section Power

variable (power : Float → Float → Float) (base exponent : Int64)

/-- The double that is taken for the power, as a number. -/
def exactPower? : Option ℚ :=
  exactValue? (power (doubleOfInteger base) (doubleOfInteger exponent))

theorem truncateDouble?_power :
    truncateDouble?
        (power (doubleOfInteger base) (doubleOfInteger exponent)) =
      (exactPower? power base exponent).map towardZero :=
  truncateDouble?_eq _

/-- Whole numbers are taken as they are in the range of 64 bits, and for the
greatest integer just above it. -/
theorem raiseInteger_of_truncated {whole : Int}
    (hwhole : truncateDouble?
      (power (doubleOfInteger base) (doubleOfInteger exponent)) = some whole) :
    raiseInteger power base exponent =
      if whole = 2 ^ 63 then .ok Int64.maxValue
      else if FitsInteger whole then .ok (Int64.ofInt whole)
      else .error (.overflow Operator.pow.symbol) := by
  have hleast : Int64.minValue.toInt = -2 ^ 63 := rfl
  have hgreatest : Int64.maxValue.toInt = 2 ^ 63 - 1 := rfl
  have hrange : FitsInteger whole ↔ -2 ^ 63 ≤ whole ∧ whole < 2 ^ 63 := Iff.rfl
  simp only [raiseInteger, integerPower?, hwhole, hleast, hgreatest,
    sub_add_cancel]
  by_cases hbound : whole = 2 ^ 63
  · subst hbound
    rfl
  by_cases hfits : FitsInteger whole
  · have hrange := hrange.mp hfits
    rw [if_pos (by omega), if_neg hbound, if_pos hfits, if_pos (by omega)]
  · have hrange := mt hrange.mpr hfits
    rw [if_neg (by omega), if_neg hbound, if_neg hfits]

/-- The power that a double is taken for is the double cut off toward zero, unless
it is the double above the greatest integer. -/
theorem raiseInteger_eq :
    raiseInteger power base exponent =
      if exactPower? power base exponent = some (2 ^ 63) then
        .ok Int64.maxValue
      else truncatedPower (exactPower? power base exponent) := by
  have htruncated := truncateDouble?_power power base exponent
  cases hexact : exactPower? power base exponent with
  | none =>
      rw [hexact, Option.map_none] at htruncated
      simp only [raiseInteger, integerPower?, htruncated, truncatedPower,
        reduceCtorEq, if_false]
  | some exact =>
      have hbound := towardZero_eq_bound_iff hexact
      rw [hexact, Option.map_some] at htruncated
      rw [raiseInteger_of_truncated power base exponent htruncated]
      simp only [hbound, Option.some.injEq, truncatedPower]

theorem truncatedPower_bound :
    truncatedPower (some (2 ^ 63)) =
      .error (.overflow Operator.pow.symbol) := by
  rw [truncatedPower, towardZero_bound]
  rfl

/-- Whatever the power function on doubles is, the power of two integers is its
double cut off toward zero, where that is a number of 64 bits, and otherwise an
overflow; except that the double above the greatest integer is taken for that
integer, and there only the outcome is another one. -/
theorem integer_power_is_truncated_iff :
    (∀ value, truncatedPower (exactPower? power base exponent) = .ok value ↔
      ∃ number, exactPower? power base exponent = some number ∧
        value.toInt = towardZero number) ∧
    raiseInteger power base exponent =
      (if exactPower? power base exponent = some (2 ^ 63) then
        .ok Int64.maxValue
      else truncatedPower (exactPower? power base exponent)) ∧
    (raiseInteger power base exponent =
        truncatedPower (exactPower? power base exponent) ↔
      exactPower? power base exponent ≠ some (2 ^ 63)) ∧
    applyInteger .pow base exponent = raiseInteger Float.pow base exponent := by
  have hraised := raiseInteger_eq power base exponent
  refine ⟨fun _ => truncatedPower_eq_ok_iff, hraised, ?_,
    applyInteger_pow base exponent⟩
  rw [hraised]
  by_cases hbound : exactPower? power base exponent = some (2 ^ 63)
  · rw [if_pos hbound, hbound, truncatedPower_bound]
    simp
  · rw [if_neg hbound]
    exact iff_of_true rfl hbound

end Power

/-- A power function that is exact for the sixty-third power of two. -/
def exactAtBound (base exponent : Float) : Float :=
  if base == 2 && exponent == 63 then Float.ofBits 0x43E0000000000000
  else Float.pow base exponent

/-- With such a power function, the sixty-third power of two is one less than it
should be and no overflow. -/
theorem two_to_sixtyThree_is_clamped :
    exactPower? exactAtBound 2 63 = some (2 ^ 63) ∧
      raiseInteger exactAtBound 2 63 = .ok Int64.maxValue ∧
      ¬ ∀ power base exponent, raiseInteger power base exponent =
        truncatedPower (exactPower? power base exponent) := by
  have hexact : exactPower? exactAtBound 2 63 = some (2 ^ 63) := by
    have hdouble : exactAtBound (doubleOfInteger 2) (doubleOfInteger 63) =
        Float.ofBits 0x43E0000000000000 := if_pos (by decide +kernel)
    have hparts : doubleParts (Float.ofBits 0x43E0000000000000) =
        .finite false (2 ^ 52) 11 := by decide +kernel
    rw [exactPower?, hdouble, exactValue?, hparts]
    norm_num
  have hraised : raiseInteger exactAtBound 2 63 = .ok Int64.maxValue := by
    rw [raiseInteger_eq, if_pos hexact]
  refine ⟨hexact, hraised, ?_⟩
  intro hclaim
  have htruncated := hclaim exactAtBound 2 63
  rw [hraised, hexact, truncatedPower_bound] at htruncated
  contradiction

end LineScript
