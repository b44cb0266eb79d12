/-
The text of an integer reads back as that integer.  Reading multiplies as it goes
and checks its limit at every digit; the value never shrinks on the way, so the
check at the last digit is the one that counts.
-/
import LineScript.Operand

namespace LineScript

theorem le_ofDigitChars (digits : List Char) (value : Nat) :
    value ≤ Nat.ofDigitChars 10 digits value := by
  rw [Nat.ofDigitChars_eq_ofDigitChars_zero]
  have hpower : 1 ≤ 10 ^ digits.length := Nat.one_le_pow _ _ (by decide)
  have hscaled := Nat.mul_le_mul_right value hpower
  omega

/-- Digits are read to the number that they write, if that is within the
limit. -/
theorem readDigits_of_digits {limit value : Nat} {overflow : IntegerFault}
    {digits : List Char} (hdigits : ∀ c ∈ digits, c.isDigit = true)
    (hvalue : value ≤ limit) :
    readDigits limit overflow value digits =
      if Nat.ofDigitChars 10 digits value ≤ limit then
        .ok (Nat.ofDigitChars 10 digits value)
      else .error overflow := by
  induction digits generalizing value with
  | nil => simp [readDigits, hvalue]
  | cons c later ih =>
      rw [Nat.ofDigitChars_cons]
      have hdigit : c.isDigit = true := hdigits c List.mem_cons_self
      have hlater : ∀ d ∈ later, d.isDigit = true := by
        intro d hd
        exact hdigits d (List.mem_cons_of_mem c hd)
      simp only [readDigits, hdigit, if_true]
      by_cases hnext : 10 * value + (c.toNat - '0'.toNat) ≤ limit
      · rw [if_pos hnext]
        exact ih hlater hnext
      · have hgrown :=
          le_ofDigitChars later (10 * value + (c.toNat - '0'.toNat))
        rw [if_neg hnext, if_neg (by omega)]

theorem readMagnitude_of_digits (limit : Nat) (overflow : IntegerFault)
    {digits : List Char} (hnonempty : digits ≠ [])
    (hdigits : ∀ c ∈ digits, c.isDigit = true) :
    readMagnitude limit overflow digits =
      if Nat.ofDigitChars 10 digits 0 ≤ limit then
        .ok (Nat.ofDigitChars 10 digits 0)
      else .error overflow := by
  rw [readMagnitude, if_neg (by simpa using hnonempty)]
  exact readDigits_of_digits hdigits (Nat.zero_le limit)

/-- Digits without a sign are read to the number that they write, leading zeros
or not, unless it is too large. -/
theorem readInteger_unsigned_eq {digits : List Char} (hnonempty : digits ≠ [])
    (hdigits : ∀ c ∈ digits, c.isDigit = true) :
    readInteger (String.ofList digits) =
      if Nat.ofDigitChars 10 digits 0 < integerBound then
        .ok (Int64.ofInt (Nat.ofDigitChars 10 digits 0))
      else .error .tooLarge := by
  have hread := readMagnitude_of_digits (integerBound - 1) .tooLarge hnonempty
    hdigits
  have hlimit : Nat.ofDigitChars 10 digits 0 ≤ integerBound - 1 ↔
      Nat.ofDigitChars 10 digits 0 < integerBound :=
    Nat.le_sub_one_iff_lt (by decide)
  simp only [hlimit] at hread
  obtain ⟨c, later, rfl⟩ := List.exists_cons_of_ne_nil hnonempty
  have hdigit : c.isDigit = true := hdigits c List.mem_cons_self
  have hminus : c ≠ '-' := by
    rintro rfl
    contradiction
  have hplus : c ≠ '+' := by
    rintro rfl
    contradiction
  unfold readInteger
  rw [String.toList_ofList]
  split
  · contradiction
  · simp_all
  · simp_all
  · rw [hread]
    split
    · rfl
    · rfl

theorem readInteger_signed_eq {digits : List Char} (hnonempty : digits ≠ [])
    (hdigits : ∀ c ∈ digits, c.isDigit = true) :
    readInteger (String.ofList ('-' :: digits)) =
      if Nat.ofDigitChars 10 digits 0 ≤ integerBound then
        .ok (Int64.ofInt (-(Nat.ofDigitChars 10 digits 0 : Nat)))
      else .error .tooSmall := by
  have hread := readMagnitude_of_digits integerBound .tooSmall hnonempty hdigits
  unfold readInteger
  rw [String.toList_ofList]
  simp only [hread]
  split
  · rfl
  · rfl

theorem readInteger_unsigned {digits : List Char} (hnonempty : digits ≠ [])
    (hdigits : ∀ c ∈ digits, c.isDigit = true)
    (hbound : Nat.ofDigitChars 10 digits 0 < integerBound) :
    readInteger (String.ofList digits) =
      .ok (Int64.ofInt (Nat.ofDigitChars 10 digits 0)) := by
  rw [readInteger_unsigned_eq hnonempty hdigits, if_pos hbound]

theorem readInteger_signed {digits : List Char} (hnonempty : digits ≠ [])
    (hdigits : ∀ c ∈ digits, c.isDigit = true)
    (hbound : Nat.ofDigitChars 10 digits 0 ≤ integerBound) :
    readInteger (String.ofList ('-' :: digits)) =
      .ok (Int64.ofInt (-(Nat.ofDigitChars 10 digits 0 : Nat))) := by
  rw [readInteger_signed_eq hnonempty hdigits, if_pos hbound]

theorem isDigit_toDigits (magnitude : Nat) :
    ∀ c ∈ Nat.toDigits 10 magnitude, c.isDigit = true := by
  intro c hc
  exact Nat.isDigit_of_mem_toDigits (by decide) (by decide) hc

/-- The text of an integer is made of digits, behind a minus sign if the integer
is negative. -/
theorem integerText_digits (value : Int64) :
    ∃ digits, digits ≠ [] ∧ (∀ c ∈ digits, c.isDigit = true) ∧
      ((integerText value).toList = digits ∨
        (integerText value).toList = '-' :: digits) := by
  rw [integerText, Int.toString_eq_repr, Int.repr_eq_if]
  split
  · exact ⟨_, Nat.toDigits_ne_nil, isDigit_toDigits value.toInt.toNat,
      Or.inl Nat.toList_repr⟩
  · exact ⟨_, Nat.toDigits_ne_nil, isDigit_toDigits (-value.toInt).toNat,
      Or.inr (by simp)⟩

theorem readInteger_integerText (value : Int64) :
    readInteger (integerText value) = .ok value := by
  have hlow := value.le_toInt
  have hhigh := value.toInt_lt
  have hvalue (magnitude : Nat) :
      Nat.ofDigitChars 10 (Nat.toDigits 10 magnitude) 0 = magnitude :=
    Nat.ofDigitChars_ten_toDigits
  rw [integerText, Int.toString_eq_repr, Int.repr_eq_if]
  by_cases hsign : 0 ≤ value.toInt
  · have hbound : value.toInt.toNat < integerBound := by
      simp only [integerBound]
      omega
    have htext : value.toInt.toNat.repr =
        String.ofList (Nat.toDigits 10 value.toInt.toNat) := by
      simp [← String.toList_inj]
    rw [if_pos hsign, htext,
      readInteger_unsigned Nat.toDigits_ne_nil (isDigit_toDigits _)
        (by rwa [hvalue]),
      hvalue, Int.toNat_of_nonneg hsign, Int64.ofInt_toInt]
  · have hbound : (-value.toInt).toNat ≤ integerBound := by
      simp only [integerBound]
      omega
    have htext : "-" ++ (-value.toInt).toNat.repr =
        String.ofList ('-' :: Nat.toDigits 10 (-value.toInt).toNat) := by
      simp [← String.toList_inj]
    have hback : (-((-value.toInt).toNat : Int)) = value.toInt := by omega
    rw [if_neg hsign, htext,
      readInteger_signed Nat.toDigits_ne_nil (isDigit_toDigits _)
        (by rwa [hvalue]),
      hvalue, hback, Int64.ofInt_toInt]

/-- The operands of a calculation that lose nothing when they travel as
text. -/
class LawfulOperand (α : Type) [Operand α] : Prop where
  read?_text : ∀ value : α, Operand.read? (Operand.text value) = some value

instance : LawfulOperand Int64 where
  read?_text value := by
    have hread := readInteger_integerText value
    simp [Operand.read?, Operand.text, hread, Except.toOption]

end LineScript
