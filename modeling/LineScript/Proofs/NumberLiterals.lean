/-
The numbers that tokens stand for.  Whether a token is an integer is found from
its shape; which integer it is, from a second reading of the part before its
point.  The readings agree unless that part has no digit or is out of range:
then the token is still called an integer, but stands for a double.
-/
import LineScript.Proofs.IntegerArithmetic
import LineScript.Proofs.NumberPatterns

namespace LineScript

/-- The digits of a number that stand before its point. -/
def wholeDigits (token : String) : List Char :=
  (dropMinus token.toList).takeWhile fun c => !c == '.'

/-- The integer that a token writes.  No digits write zero, and a fraction does
not count. -/
def literalInteger (token : String) : Int :=
  if token.toList.head? = some '-' then -digitsValue (wholeDigits token)
  else digitsValue (wholeDigits token)

section Reading

variable {digits : List Char} {value : Int64}

/-- An integer is known by the number that it is. -/
theorem ofInt_eq_iff {number : Int} (hfits : FitsInteger number) :
    Int64.ofInt number = value ↔ value.toInt = number := by
  rw [← Int64.toInt_inj, toInt_ofInt_of_fits hfits]
  exact eq_comm

theorem readInteger_unsigned_iff
    (hdigits : ∀ c ∈ digits, c.isDigit = true) :
    readInteger (String.ofList digits) = .ok value ↔
      digits ≠ [] ∧ value.toInt = digitsValue digits := by
  by_cases hempty : digits = []
  · simp [hempty, readInteger]
  rw [readInteger_unsigned_eq hempty hdigits]
  split
  · next hbound =>
    have hfits : FitsInteger (digitsValue digits) := by
      simp only [FitsInteger, digitsValue, integerBound] at *
      omega
    simp only [hempty, not_false_eq_true, ne_eq, true_and, Except.ok.injEq]
    exact ofInt_eq_iff hfits
  · next hbound =>
    have hhigh := value.toInt_lt
    simp only [digitsValue, integerBound] at *
    simp only [reduceCtorEq, false_iff, not_and]
    omega

theorem readInteger_signed_iff
    (hdigits : ∀ c ∈ digits, c.isDigit = true) :
    readInteger (String.ofList ('-' :: digits)) = .ok value ↔
      digits ≠ [] ∧ value.toInt = -digitsValue digits := by
  by_cases hempty : digits = []
  · simp [hempty, readInteger, readMagnitude, bind, Except.bind]
  rw [readInteger_signed_eq hempty hdigits]
  split
  · next hbound =>
    have hfits : FitsInteger (-digitsValue digits) := by
      simp only [FitsInteger, digitsValue, integerBound] at *
      omega
    simp only [hempty, not_false_eq_true, ne_eq, true_and, Except.ok.injEq]
    exact ofInt_eq_iff hfits
  · next hbound =>
    have hlow := value.le_toInt
    simp only [digitsValue, integerBound] at *
    simp only [reduceCtorEq, false_iff, not_and]
    omega

end Reading

theorem isDigit_of_wholeDigits {token : String} {kind : Kind}
    (hnumber : NumberText (dropMinus token.toList) kind) :
    ∀ c ∈ wholeDigits token, c.isDigit = true := by
  intro c hc
  have hpoint : c ≠ '.' := by
    simpa using List.all_eq_true.mp List.all_takeWhile c hc
  have hmem : c ∈ dropMinus token.toList :=
    (List.takeWhile_sublist _).subset hc
  exact (hnumber.isDigit_or_point c hmem).resolve_right hpoint

/-- The part of an integer before its point is read to the integer that the
token writes, or not at all. -/
theorem readInteger_cutAt_iff {token : String} {value : Int64}
    (hnumber : NumberText (dropMinus token.toList) .int) :
    readInteger (String.ofList (cutAt (· == '.') token.toList).1) = .ok value ↔
      wholeDigits token ≠ [] ∧ value.toInt = literalInteger token := by
  have hdigits := isDigit_of_wholeDigits hnumber
  by_cases hminus : ∃ behind, token.toList = '-' :: behind
  · obtain ⟨behind, htoken⟩ := hminus
    have hfront : (cutAt (· == '.') token.toList).1 =
        '-' :: wholeDigits token := by
      simp [cutAt_fst, wholeDigits, htoken, dropMinus]
    rw [hfront, readInteger_signed_iff hdigits, literalInteger,
      if_pos (by rw [htoken]; rfl)]
  · rw [not_exists] at hminus
    have hhead : token.toList.head? ≠ some '-' := by
      intro hhead
      obtain ⟨behind, htoken⟩ := List.head?_eq_some_iff.mp hhead
      exact hminus behind htoken
    have hfront : (cutAt (· == '.') token.toList).1 = wholeDigits token := by
      simp [cutAt_fst, wholeDigits, dropMinus_of_ne hminus]
    rw [hfront, readInteger_unsigned_iff hdigits, literalInteger,
      if_neg hhead]

/-- An integer token stands for the integer that it writes, if there is a digit
before its point and the integer is within range. -/
theorem ofLiteral_eq_int_iff {token : String} {value : Int64}
    (hkind : inferKind token = .int) :
    Value.ofLiteral token = .int value ↔
      wholeDigits token ≠ [] ∧ value.toInt = literalInteger token := by
  have hnumber := (inferKind_eq_number_iff (Or.inl rfl)).mp hkind
  obtain ⟨double, -, hdouble⟩ := ofDoubleLiteral_of_numberText hnumber
  rw [← readInteger_cutAt_iff hnumber, Value.ofLiteral, hkind]
  dsimp only
  split
  · next read hread => simp [hread]
  · next fault hread => simp [hread, hdouble]

/-- An integer's text stands for that integer. -/
@[simp]
theorem ofLiteral_integerText (value : Int64) :
    Value.ofLiteral (integerText value) = .int value := by
  obtain ⟨digits, hnonempty, hdigits, htext⟩ := integerText_digits value
  have hunsigned : dropMinus (integerText value).toList = digits := by
    rcases htext with htext | htext
    · rw [htext]
      refine dropMinus_of_ne ?_
      rintro behind rfl
      exact absurd (hdigits '-' List.mem_cons_self) (by decide)
    · rw [htext]
      rfl
  have hkind : inferKind (integerText value) = .int :=
    inferKind_of_numberText (hunsigned ▸ .whole hnonempty hdigits)
  have hpoint : ∀ c ∈ (integerText value).toList, (c == '.') = false := by
    have hnone := not_point_of_digits hdigits
    rcases htext with htext | htext
    · rw [htext]
      exact hnone
    · rw [htext]
      exact List.forall_mem_cons.mpr ⟨rfl, hnone⟩
  rw [Value.ofLiteral, hkind]
  simp only [cutAt_of_forall hpoint, String.ofList_toList,
    readInteger_integerText]

/-- A text that is not read as an integer is not the text of one. -/
theorem integerText_ne {token : String} {fault : IntegerFault}
    (hread : readInteger token = .error fault) (value : Int64) :
    integerText value ≠ token := by
  rintro rfl
  rw [readInteger_integerText] at hread
  contradiction

/-- Any other integer token stands for the double that it writes. -/
theorem ofLiteral_eq_double {token : String} (hkind : inferKind token = .int)
    (hvalue : ∀ value, Value.ofLiteral token ≠ .int value) :
    ∃ double, readDouble? token = some double ∧
      Value.ofLiteral token = .double double := by
  have hnumber := (inferKind_eq_number_iff (Or.inl rfl)).mp hkind
  obtain ⟨double, hread, hdouble⟩ := ofDoubleLiteral_of_numberText hnumber
  refine ⟨double, hread, ?_⟩
  rw [Value.ofLiteral, hkind] at hvalue ⊢
  dsimp only at hvalue ⊢
  split
  · next value hwhole =>
    rw [hwhole] at hvalue
    exact absurd rfl (hvalue value)
  · exact hdouble

theorem exists_ofLiteral_eq_int_iff {token : String}
    (hkind : inferKind token = .int) :
    (∃ value, Value.ofLiteral token = .int value) ↔
      wholeDigits token ≠ [] ∧ FitsInteger (literalInteger token) := by
  simp only [ofLiteral_eq_int_iff hkind, exists_and_left, and_congr_right_iff]
  intro _
  constructor
  · rintro ⟨value, hvalue⟩
    rw [← hvalue]
    exact fitsInteger_toInt value
  · intro hfits
    exact ⟨Int64.ofInt (literalInteger token), toInt_ofInt_of_fits hfits⟩

theorem kind_ofLiteral_of_ne_int {token : String}
    (hkind : inferKind token ≠ .int) :
    (Value.ofLiteral token).kind = inferKind token := by
  have harray := (hasKind_inferKind token).ne_array
  unfold Value.ofLiteral
  split
  · next hbool => exact hbool.symm
  · contradiction
  · next hdouble =>
    have hnumber := (inferKind_eq_number_iff (Or.inr rfl)).mp hdouble
    obtain ⟨double, -, hvalue⟩ := ofDoubleLiteral_of_numberText hnumber
    rw [hvalue, hdouble]
    rfl
  · next htext => exact htext.symm
  · contradiction
  · next habsent => exact habsent.symm

/-- A token that is called an integer stands for the integer that it writes, or
for a double if no digit is before its point or the integer is out of range.
Only then is the kind of the value another one than the kind of the token. -/
theorem literals_have_inferred_kind_iff (token : String) :
    (inferKind token = .int →
      (∀ value, Value.ofLiteral token = .int value ↔
        wholeDigits token ≠ [] ∧ value.toInt = literalInteger token) ∧
      (¬ (wholeDigits token ≠ [] ∧ FitsInteger (literalInteger token)) →
        ∃ double, readDouble? token = some double ∧
          Value.ofLiteral token = .double double)) ∧
    ((Value.ofLiteral token).kind = inferKind token ↔
      (inferKind token = .int →
        wholeDigits token ≠ [] ∧ FitsInteger (literalInteger token))) := by
  constructor
  · intro hkind
    refine ⟨fun value => ofLiteral_eq_int_iff hkind, fun hout => ?_⟩
    rw [← exists_ofLiteral_eq_int_iff hkind, not_exists] at hout
    exact ofLiteral_eq_double hkind hout
  · by_cases hkind : inferKind token = .int
    · simp only [hkind, forall_true_left, ← exists_ofLiteral_eq_int_iff hkind]
      constructor
      · intro hvalue
        by_contra hout
        obtain ⟨double, -, hdouble⟩ :=
          ofLiteral_eq_double hkind (not_exists.mp hout)
        rw [hdouble] at hvalue
        contradiction
      · rintro ⟨value, hvalue⟩
        rw [hvalue]
        rfl
    · exact iff_of_true (kind_ofLiteral_of_ne_int hkind) fun h => absurd h hkind

/-- The least integer, with a fraction of zeros. -/
theorem literals_have_inferred_kind_least :
    Value.ofLiteral "-9223372036854775808.0" = .int Int64.minValue := by
  have hkind : inferKind "-9223372036854775808.0" = .int := by decide +kernel
  have hvalue :=
    ((literals_have_inferred_kind_iff "-9223372036854775808.0").1 hkind).1
      Int64.minValue
  exact hvalue.mpr (by decide +kernel)

/-- `.0` is called an integer and writes zero, but stands for a double. -/
theorem pointZero_stands_for_double :
    inferKind ".0" = .int ∧ literalInteger ".0" = 0 ∧
      (Value.ofLiteral ".0").kind = .double ∧
      ¬ ∀ token, inferKind token = .int →
        FitsInteger (literalInteger token) →
        ∃ value, Value.ofLiteral token = .int value ∧
          value.toInt = literalInteger token := by
  have hkind : inferKind ".0" = .int := by decide +kernel
  have hzero : literalInteger ".0" = 0 := by decide +kernel
  have hvalue : ∀ value, Value.ofLiteral ".0" ≠ .int value := by
    intro value hvalue
    obtain ⟨hwhole, -⟩ := (ofLiteral_eq_int_iff hkind).mp hvalue
    exact hwhole (by decide +kernel)
  obtain ⟨double, -, hdouble⟩ := ofLiteral_eq_double hkind hvalue
  refine ⟨hkind, hzero, by rw [hdouble]; rfl, fun hclaim => ?_⟩
  obtain ⟨value, hint, -⟩ :=
    hclaim ".0" hkind (by rw [hzero]; decide +kernel)
  exact hvalue value hint

end LineScript
