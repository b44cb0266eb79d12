/-
The numbers among the tokens.  The kind of a token is found by a row of tests,
and whether a text writes a number by cutting it at its first point; the same
tokens are described here by regular expressions.  Between the two stand the
shapes of a number: digits alone, digits with a fraction of zeros, digits with
another one.
-/
import LineScript.Literal
import LineScript.Proofs.WordPieces
import Mathlib.Computability.RegularExpressions

namespace LineScript

theorem dropMinus_of_ne {text : List Char}
    (hminus : ∀ behind, text ≠ '-' :: behind) : dropMinus text = text := by
  unfold dropMinus
  split
  · exact absurd rfl (hminus _)
  · rfl

namespace Pattern

/-- One of the given characters. -/
def oneOf (chars : List Char) : RegularExpression Char :=
  chars.foldr (fun c others => .char c + others) 0

/-- The pattern or nothing. -/
def optional (pattern : RegularExpression Char) : RegularExpression Char :=
  1 + pattern

/-- The pattern once or more often. -/
def atLeastOnce (pattern : RegularExpression Char) : RegularExpression Char :=
  pattern * pattern.star

def minus : RegularExpression Char := oneOf ['-']

def point : RegularExpression Char := oneOf ['.']

def zero : RegularExpression Char := oneOf ['0']

def nonzeroDigit : RegularExpression Char :=
  oneOf ['1', '2', '3', '4', '5', '6', '7', '8', '9']

def digit : RegularExpression Char :=
  oneOf ['0', '1', '2', '3', '4', '5', '6', '7', '8', '9']

def unsignedInteger : RegularExpression Char :=
  atLeastOnce digit * optional (point * zero.star) + point * atLeastOnce zero

def unsignedDouble : RegularExpression Char :=
  digit.star * (point * (digit.star * (nonzeroDigit * digit.star)))

/-- The integers: `-?([0-9]+([.]0*)?|[.]0+)`. -/
def integer : RegularExpression Char :=
  optional minus * unsignedInteger

/-- The doubles: `-?[0-9]*[.][0-9]*[1-9][0-9]*`. -/
def double : RegularExpression Char :=
  optional minus * unsignedDouble

section Membership

variable {chars text : List Char} {pattern other : RegularExpression Char}

theorem mem_oneOf :
    text ∈ (oneOf chars).matches' ↔ ∃ c ∈ chars, text = [c] := by
  induction chars with
  | nil => simp [oneOf]
  | cons first later ih =>
      have hcons : (oneOf (first :: later)).matches' =
          {[first]} + (oneOf later).matches' := rfl
      rw [hcons, Language.mem_add, ih, List.exists_mem_cons_iff]
      rfl

theorem mem_star_oneOf :
    text ∈ (oneOf chars).star.matches' ↔ ∀ c ∈ text, c ∈ chars := by
  rw [RegularExpression.matches'_star, Language.mem_kstar]
  constructor
  · rintro ⟨parts, rfl, hparts⟩ c hc
    obtain ⟨part, hpart, hc⟩ := List.mem_flatten.mp hc
    obtain ⟨other, hother, rfl⟩ := mem_oneOf.mp (hparts part hpart)
    obtain rfl := List.mem_singleton.mp hc
    exact hother
  · intro hchars
    refine ⟨text.map fun c => [c], (List.flatMap_singleton' text).symm, ?_⟩
    intro part hpart
    obtain ⟨c, hc, rfl⟩ := List.mem_map.mp hpart
    exact mem_oneOf.mpr ⟨c, hchars c hc, rfl⟩

theorem mem_atLeastOnce_oneOf :
    text ∈ (atLeastOnce (oneOf chars)).matches' ↔
      text ≠ [] ∧ ∀ c ∈ text, c ∈ chars := by
  rw [atLeastOnce, RegularExpression.matches'_mul, Language.mem_mul]
  simp only [mem_star_oneOf, mem_oneOf]
  constructor
  · rintro ⟨_, ⟨c, hc, rfl⟩, later, hlater, rfl⟩
    exact ⟨List.cons_ne_nil c later, List.forall_mem_cons.mpr ⟨hc, hlater⟩⟩
  · rintro ⟨hnonempty, hchars⟩
    obtain ⟨c, later, rfl⟩ := List.exists_cons_of_ne_nil hnonempty
    obtain ⟨hc, hlater⟩ := List.forall_mem_cons.mp hchars
    exact ⟨[c], ⟨c, hc, rfl⟩, later, hlater, rfl⟩

theorem mem_add :
    text ∈ (pattern + other).matches' ↔
      text ∈ pattern.matches' ∨ text ∈ other.matches' := by
  rw [RegularExpression.matches'_add, Language.mem_add]

theorem mem_optional :
    text ∈ (optional pattern).matches' ↔
      text = [] ∨ text ∈ pattern.matches' := by
  rw [optional, mem_add, RegularExpression.matches'_epsilon, Language.mem_one]

theorem mem_mul :
    text ∈ (pattern * other).matches' ↔
      ∃ front back, text = front ++ back ∧ front ∈ pattern.matches' ∧
        back ∈ other.matches' := by
  rw [RegularExpression.matches'_mul, Language.mem_mul]
  constructor
  · rintro ⟨front, hfront, back, hback, rfl⟩
    exact ⟨front, back, rfl, hfront, hback⟩
  · rintro ⟨front, back, rfl, hfront, hback⟩
    exact ⟨front, hfront, back, hback, rfl⟩

theorem mem_point_mul :
    text ∈ (point * pattern).matches' ↔
      ∃ behind, text = '.' :: behind ∧ behind ∈ pattern.matches' := by
  simp only [mem_mul, point, mem_oneOf, List.mem_singleton]
  constructor
  · rintro ⟨_, behind, rfl, ⟨_, rfl, rfl⟩, hbehind⟩
    exact ⟨behind, rfl, hbehind⟩
  · rintro ⟨behind, rfl, hbehind⟩
    exact ⟨['.'], behind, rfl, ⟨'.', rfl, rfl⟩, hbehind⟩

/-- Of a text with an optional sign, what stands behind the sign matters, unless
that may have a sign of its own. -/
theorem mem_optional_minus_mul
    (hunsigned : ∀ behind, '-' :: behind ∉ pattern.matches') :
    text ∈ (optional minus * pattern).matches' ↔
      dropMinus text ∈ pattern.matches' := by
  simp only [mem_mul, mem_optional, minus, mem_oneOf, List.mem_singleton]
  by_cases hminus : ∃ behind, text = '-' :: behind
  · obtain ⟨behind, rfl⟩ := hminus
    constructor
    · rintro ⟨front, back, htext, rfl | ⟨_, rfl, rfl⟩, hback⟩
      · rw [List.nil_append] at htext
        exact absurd (htext ▸ hback) (hunsigned behind)
      · obtain rfl := (List.cons.inj htext).2
        exact hback
    · intro hbehind
      exact ⟨['-'], behind, rfl, Or.inr ⟨'-', rfl, rfl⟩, hbehind⟩
  · rw [not_exists] at hminus
    rw [dropMinus_of_ne hminus]
    constructor
    · rintro ⟨front, back, rfl, rfl | ⟨_, rfl, rfl⟩, hback⟩
      · exact hback
      · exact absurd rfl (hminus back)
    · intro htext
      exact ⟨[], text, rfl, Or.inl rfl, htext⟩

end Membership

end Pattern

theorem mem_digits_iff {c : Char} :
    c ∈ ['0', '1', '2', '3', '4', '5', '6', '7', '8', '9'] ↔
      c.isDigit = true := by
  rw [Char.isDigit_iff_toNat]
  simp only [List.mem_cons, List.not_mem_nil, or_false, ← Char.toNat_inj,
    Char.reduceToNat]
  omega

theorem mem_nonzeroDigits_iff {c : Char} :
    c ∈ ['1', '2', '3', '4', '5', '6', '7', '8', '9'] ↔
      c.isDigit = true ∧ c ≠ '0' := by
  rw [Char.isDigit_iff_toNat]
  simp only [List.mem_cons, List.not_mem_nil, or_false, ne_eq, ← Char.toNat_inj,
    Char.reduceToNat]
  omega

/-- The unsigned texts that write numbers, with their kinds.  A fraction without
a digit other than zero makes an integer. -/
inductive NumberText : List Char → Kind → Prop
  | whole {digits : List Char} :
    digits ≠ [] → (∀ c ∈ digits, c.isDigit = true) → NumberText digits .int
  | zeroFraction {digits zeros : List Char} :
    digits ++ zeros ≠ [] → (∀ c ∈ digits, c.isDigit = true) →
      (∀ c ∈ zeros, c = '0') → NumberText (digits ++ '.' :: zeros) .int
  | fraction {digits places : List Char} {c : Char} :
    (∀ c ∈ digits, c.isDigit = true) → (∀ c ∈ places, c.isDigit = true) →
      c ∈ places → c ≠ '0' → NumberText (digits ++ '.' :: places) .double

theorem isDigit_of_zeros {zeros : List Char} (hzeros : ∀ c ∈ zeros, c = '0') :
    ∀ c ∈ zeros, c.isDigit = true := by
  intro c hc
  rw [hzeros c hc]
  rfl

theorem not_point_of_digits {digits : List Char}
    (hdigits : ∀ c ∈ digits, c.isDigit = true) :
    ∀ c ∈ digits, (c == '.') = false := by
  intro c hc
  have hdigit := hdigits c hc
  apply beq_false_of_ne
  rintro rfl
  contradiction

namespace NumberText

variable {text : List Char} {kind : Kind}

theorem ne_nil (hnumber : NumberText text kind) : text ≠ [] := by
  cases hnumber with
  | whole hnonempty _ => exact hnonempty
  | zeroFraction _ _ _ | fraction _ _ _ _ => simp

theorem int_or_double (hnumber : NumberText text kind) :
    kind = .int ∨ kind = .double := by
  cases hnumber with
  | whole _ _ | zeroFraction _ _ _ => exact Or.inl rfl
  | fraction _ _ _ _ => exact Or.inr rfl

/-- A number is made of digits and points. -/
theorem isDigit_or_point (hnumber : NumberText text kind) :
    ∀ c ∈ text, c.isDigit = true ∨ c = '.' := by
  have hpointed {digits places : List Char}
      (hdigits : ∀ c ∈ digits, c.isDigit = true)
      (hplaces : ∀ c ∈ places, c.isDigit = true) :
      ∀ c ∈ digits ++ '.' :: places, c.isDigit = true ∨ c = '.' := by
    intro c hc
    rcases List.mem_append.mp hc with hc | hc
    · exact Or.inl (hdigits c hc)
    · rcases List.mem_cons.mp hc with rfl | hc
      · exact Or.inr rfl
      · exact Or.inl (hplaces c hc)
  cases hnumber with
  | whole _ hdigits => exact fun c hc => Or.inl (hdigits c hc)
  | zeroFraction _ hdigits hzeros =>
      exact hpointed hdigits (isDigit_of_zeros hzeros)
  | fraction hdigits hplaces _ _ => exact hpointed hdigits hplaces

end NumberText

theorem numberKind_whole {text : List Char}
    (htext : ∀ c ∈ text, (c == '.') = false) :
    numberKind text = if text.all Char.isDigit then .int else .text := by
  rw [numberKind, cutAt_of_forall htext]

/-- Behind its first point, a number has the fraction. -/
theorem numberKind_pointed {whole : List Char}
    (hwhole : ∀ c ∈ whole, (c == '.') = false) (places : List Char) :
    numberKind (whole ++ '.' :: places) =
      if whole ++ places = [] ∨ (whole ++ places).all Char.isDigit = false then
        .text
      else if places.all (· == '0') then .int
      else .double := by
  rw [numberKind, cutAt_append_cons hwhole (by decide)]
  simp only [Bool.or_eq_true, List.isEmpty_iff, Bool.not_eq_true']

/-- The texts with the kind of a number are those with one of the shapes. -/
theorem numberText_iff {text : List Char} {kind : Kind} :
    NumberText text kind ↔
      text ≠ [] ∧ numberKind text = kind ∧ kind ≠ .text := by
  constructor
  · intro hnumber
    refine ⟨hnumber.ne_nil, ?_⟩
    cases hnumber with
    | whole _ hdigits =>
        rw [numberKind_whole (not_point_of_digits hdigits),
          if_pos (List.all_eq_true.mpr hdigits)]
        exact ⟨rfl, by decide⟩
    | @zeroFraction digits zeros hnonempty hdigits hzeros =>
        have hall : (digits ++ zeros).all Char.isDigit = true :=
          List.all_eq_true.mpr
            (List.forall_mem_append.mpr ⟨hdigits, isDigit_of_zeros hzeros⟩)
        have hzero : zeros.all (· == '0') = true := by simpa using hzeros
        rw [numberKind_pointed (not_point_of_digits hdigits),
          if_neg (by simp [hnonempty, hall]), if_pos hzero]
        exact ⟨rfl, by decide⟩
    | @fraction digits places _ hdigits hplaces hc hnonzero =>
        have hall : (digits ++ places).all Char.isDigit = true :=
          List.all_eq_true.mpr (List.forall_mem_append.mpr ⟨hdigits, hplaces⟩)
        have hnonempty : digits ++ places ≠ [] :=
          List.append_ne_nil_of_right_ne_nil _ (List.ne_nil_of_mem hc)
        have hzero : ¬ places.all (· == '0') = true := by
          intro hzeros
          exact hnonzero (by simpa using List.all_eq_true.mp hzeros _ hc)
        rw [numberKind_pointed (not_point_of_digits hdigits),
          if_neg (by simp [hnonempty, hall]), if_neg hzero]
        exact ⟨rfl, by decide⟩
  · rintro ⟨hnonempty, rfl, htext⟩
    rcases exists_cut (· == '.') text with
      hwhole | ⟨whole, c, places, rfl, hwhole, hc⟩
    · rw [numberKind_whole hwhole] at htext ⊢
      split at htext
      · next hdigits =>
        rw [if_pos hdigits]
        exact .whole hnonempty (List.all_eq_true.mp hdigits)
      · contradiction
    · obtain rfl : c = '.' := by simpa using hc
      rw [numberKind_pointed hwhole] at htext ⊢
      split at htext
      · contradiction
      · next hshape =>
        obtain ⟨hdigit, hall⟩ := not_or.mp hshape
        rw [Bool.not_eq_false, List.all_eq_true] at hall
        obtain ⟨hwhole, hplaces⟩ := List.forall_mem_append.mp hall
        rw [if_neg hshape]
        split
        · next hzeros =>
          exact .zeroFraction hdigit hwhole (by simpa using hzeros)
        · next hzeros =>
          obtain ⟨c, hc, hnonzero⟩ := by simpa using hzeros
          exact .fraction hwhole hplaces hc hnonzero

/-- A number gets through all tests that come before its shape is looked at. -/
theorem inferKind_of_numberText {token : String} {kind : Kind}
    (hnumber : NumberText (dropMinus token.toList) kind) :
    inferKind token = kind := by
  have hchars := hnumber.isDigit_or_point
  have hword : ¬ (token = Word.truth ∨ token = Word.falsity) := by
    rintro (rfl | rfl)
    · exact absurd (hchars 't' (by decide)) (by decide)
    · exact absurd (hchars 'f' (by decide)) (by decide)
  have hempty : token ≠ "" := by
    rintro rfl
    exact hnumber.ne_nil rfl
  have hquote : token.toList.head? ≠ some quoteMark := by
    intro hhead
    obtain ⟨later, hlater⟩ := List.head?_eq_some_iff.mp hhead
    have hmem : quoteMark ∈ dropMinus token.toList := by
      rw [hlater]
      exact List.mem_cons_self
    exact absurd (hchars quoteMark hmem) (by decide)
  have hliteral : (dropMinus token.toList).all isLiteralChar = true := by
    rw [List.all_eq_true]
    intro c hc
    rcases hchars c hc with hdigit | rfl
    · simp [isLiteralChar, Char.isAlphanum, hdigit]
    · rfl
  have hnonempty : (dropMinus token.toList).isEmpty = false := by
    simpa using hnumber.ne_nil
  rw [inferKind, if_neg hword, if_neg hempty]
  simp only [hquote, hnonempty, hliteral, Bool.not_true, Bool.false_eq_true,
    or_self, if_false]
  exact (numberText_iff.mp hnumber).2.1

/-- The kind that a token has by its grammar. -/
inductive HasKind (token : String) : Kind → Prop
  | bool : token = Word.truth ∨ token = Word.falsity → HasKind token .bool
  | absent : token = "" → HasKind token .absent
  | number {kind : Kind} :
    NumberText (dropMinus token.toList) kind → HasKind token kind
  | text :
    ¬ (token = Word.truth ∨ token = Word.falsity) → token ≠ "" →
      (∀ kind, ¬ NumberText (dropMinus token.toList) kind) →
      HasKind token .text

theorem hasKind_inferKind (token : String) :
    HasKind token (inferKind token) := by
  by_cases hword : token = Word.truth ∨ token = Word.falsity
  · rw [inferKind, if_pos hword]
    exact .bool hword
  by_cases hempty : token = ""
  · rw [inferKind, if_neg hword, if_pos hempty]
    exact .absent hempty
  by_cases hnumber : ∃ kind, NumberText (dropMinus token.toList) kind
  · obtain ⟨kind, hnumber⟩ := hnumber
    rw [inferKind_of_numberText hnumber]
    exact .number hnumber
  · have hshape := not_exists.mp hnumber
    have htext : inferKind token = .text := by
      rw [inferKind, if_neg hword, if_neg hempty]
      refine ite_eq_left_iff.mpr fun htests => ?_
      by_contra hkind
      refine hshape _ (numberText_iff.mpr ⟨?_, rfl, hkind⟩)
      simp_all
    rw [htext]
    exact .text hword hempty hshape

/-- No token stands for an array. -/
theorem HasKind.ne_array {token : String} {kind : Kind}
    (hhas : HasKind token kind) : kind ≠ .array := by
  cases hhas with
  | bool _ | absent _ | text _ _ _ => simp
  | number hnumber =>
      rintro rfl
      simpa using hnumber.int_or_double

/-- The kind that is found is the one that the grammar says. -/
theorem inferKind_eq_iff {token : String} {kind : Kind} :
    inferKind token = kind ↔ HasKind token kind := by
  constructor
  · rintro rfl
    exact hasKind_inferKind token
  · intro hkind
    cases hkind with
    | bool hword => rw [inferKind, if_pos hword]
    | absent hempty =>
        subst hempty
        rfl
    | number hnumber => exact inferKind_of_numberText hnumber
    | text hword hempty hshape =>
        generalize hfound : inferKind token = found
        have hinferred := hasKind_inferKind token
        rw [hfound] at hinferred
        cases hinferred with
        | bool hother => contradiction
        | absent hother => contradiction
        | number hnumber => exact absurd hnumber (hshape _)
        | text _ _ _ => rfl

/-- A token has the kind of a number by its shape alone. -/
theorem inferKind_eq_number_iff {token : String} {kind : Kind}
    (hkind : kind = .int ∨ kind = .double) :
    inferKind token = kind ↔ NumberText (dropMinus token.toList) kind := by
  rw [inferKind_eq_iff]
  constructor
  · intro hhas
    cases hhas with
    | number hnumber => exact hnumber
    | bool _ | absent _ | text _ _ _ => simp at hkind
  · exact HasKind.number

namespace Pattern

variable {text : List Char}

theorem mem_unsignedInteger_iff :
    text ∈ unsignedInteger.matches' ↔ NumberText text .int := by
  rw [unsignedInteger, mem_add, mem_mul, mem_point_mul]
  simp only [mem_optional, mem_point_mul, digit, zero, mem_atLeastOnce_oneOf,
    mem_star_oneOf, mem_digits_iff, List.mem_singleton]
  constructor
  · rintro (⟨digits, _, rfl, ⟨hnonempty, hdigits⟩, rfl | ⟨zeros, rfl, hzeros⟩⟩ |
      ⟨zeros, rfl, hnonempty, hzeros⟩)
    · rw [List.append_nil]
      exact .whole hnonempty hdigits
    · exact .zeroFraction (List.append_ne_nil_of_left_ne_nil hnonempty zeros)
        hdigits hzeros
    · exact @NumberText.zeroFraction [] zeros hnonempty nofun hzeros
  · intro hnumber
    cases hnumber with
    | whole hnonempty hdigits =>
        exact Or.inl ⟨text, [], (List.append_nil text).symm,
          ⟨hnonempty, hdigits⟩, Or.inl rfl⟩
    | @zeroFraction digits zeros hnonempty hdigits hzeros =>
        by_cases hempty : digits = []
        · subst hempty
          exact Or.inr ⟨zeros, rfl, hnonempty, hzeros⟩
        · exact Or.inl ⟨digits, _, rfl, ⟨hempty, hdigits⟩,
            Or.inr ⟨zeros, rfl, hzeros⟩⟩

theorem mem_unsignedDouble_iff :
    text ∈ unsignedDouble.matches' ↔ NumberText text .double := by
  rw [unsignedDouble, mem_mul]
  simp only [mem_point_mul]
  simp only [mem_mul, digit, nonzeroDigit, mem_star_oneOf, mem_oneOf,
    mem_digits_iff, mem_nonzeroDigits_iff]
  constructor
  · rintro ⟨digits, _, rfl, hdigits, _, rfl, before, _, rfl, hbefore, _, after,
      rfl, ⟨c, ⟨hc, hnonzero⟩, rfl⟩, hafter⟩
    refine .fraction hdigits ?_ (List.mem_append_right _ List.mem_cons_self)
      hnonzero
    exact List.forall_mem_append.mpr
      ⟨hbefore, List.forall_mem_cons.mpr ⟨hc, hafter⟩⟩
  · intro hnumber
    cases hnumber with
    | @fraction digits places c hdigits hplaces hc hnonzero =>
        obtain ⟨before, after, rfl⟩ := List.append_of_mem hc
        obtain ⟨hbefore, hrest⟩ := List.forall_mem_append.mp hplaces
        obtain ⟨hdigit, hafter⟩ := List.forall_mem_cons.mp hrest
        exact ⟨digits, _, rfl, hdigits, _, rfl, before, _, rfl, hbefore, [c],
          after, rfl, ⟨c, ⟨hdigit, hnonzero⟩, rfl⟩, hafter⟩

/-- No number has two signs. -/
theorem not_numberText_minus (behind : List Char) (kind : Kind) :
    ¬ NumberText ('-' :: behind) kind := by
  intro hnumber
  exact absurd (hnumber.isDigit_or_point '-' List.mem_cons_self) (by decide)

theorem mem_integer_iff :
    text ∈ integer.matches' ↔ NumberText (dropMinus text) .int := by
  rw [integer, mem_optional_minus_mul, mem_unsignedInteger_iff]
  intro behind hbehind
  exact not_numberText_minus _ _ (mem_unsignedInteger_iff.mp hbehind)

theorem mem_double_iff :
    text ∈ double.matches' ↔ NumberText (dropMinus text) .double := by
  rw [double, mem_optional_minus_mul, mem_unsignedDouble_iff]
  intro behind hbehind
  exact not_numberText_minus _ _ (mem_unsignedDouble_iff.mp hbehind)

end Pattern

section Reading

variable {text : List Char} {kind : Kind}

/-- No digit and no point starts an exponent. -/
theorem not_exponent_of_numberText (hnumber : NumberText text kind) :
    ∀ c ∈ text, (c == 'e' || c == 'E') = false := by
  intro c hc
  rw [Bool.or_eq_false_iff]
  constructor <;>
  · apply beq_false_of_ne
    rintro rfl
    exact absurd (hnumber.isDigit_or_point _ hc) (by decide)

theorem readDecimal?_of_digits {whole : List Char} {behind : Option (List Char)}
    (hexponent : ∀ c ∈ text, (c == 'e' || c == 'E') = false)
    (hcut : cutAt (· == '.') text = (whole, behind))
    (hnonempty : whole ++ behind.getD [] ≠ [])
    (hdigits : ∀ c ∈ whole ++ behind.getD [], c.isDigit = true) :
    readDecimal? text =
      some ⟨digitsValue (whole ++ behind.getD []),
        -(behind.getD []).length⟩ := by
  have hempty : (whole ++ behind.getD []).isEmpty = false := by
    simpa using hnonempty
  have hall : (whole ++ behind.getD []).all Char.isDigit = true :=
    List.all_eq_true.mpr hdigits
  simp [readDecimal?, cutAt_of_forall hexponent, hcut, hempty, hall]

theorem exists_readDecimal? (hnumber : NumberText text kind) :
    ∃ decimal, readDecimal? text = some decimal := by
  have hexponent := not_exponent_of_numberText hnumber
  cases hnumber with
  | whole hnonempty hdigits =>
      have hcut := cutAt_of_forall (not_point_of_digits hdigits)
      rw [← List.append_nil text] at hnonempty hdigits
      exact ⟨_, readDecimal?_of_digits hexponent hcut hnonempty hdigits⟩
  | @zeroFraction digits zeros hnonempty hdigits hzeros =>
      have hcut : cutAt (· == '.') (digits ++ '.' :: zeros) =
          (digits, some zeros) :=
        cutAt_append_cons (not_point_of_digits hdigits) rfl zeros
      have hall := List.forall_mem_append.mpr
        ⟨hdigits, isDigit_of_zeros hzeros⟩
      exact ⟨_, readDecimal?_of_digits hexponent hcut hnonempty hall⟩
  | @fraction digits places _ hdigits hplaces hc _ =>
      have hcut : cutAt (· == '.') (digits ++ '.' :: places) =
          (digits, some places) :=
        cutAt_append_cons (not_point_of_digits hdigits) rfl places
      have hnonempty : digits ++ places ≠ [] :=
        List.append_ne_nil_of_right_ne_nil _ (List.ne_nil_of_mem hc)
      have hall := List.forall_mem_append.mpr ⟨hdigits, hplaces⟩
      exact ⟨_, readDecimal?_of_digits hexponent hcut hnonempty hall⟩

theorem exists_readUnsignedDouble? {decimal : Decimal}
    (hdecimal : readDecimal? text = some decimal) :
    ∃ value, readUnsignedDouble? text = some value := by
  simp only [readUnsignedDouble?]
  by_cases hinfinity : String.ofList (text.map Char.toLower) = "inf" ∨
      String.ofList (text.map Char.toLower) = "infinity"
  · rw [if_pos hinfinity]
    exact ⟨_, rfl⟩
  by_cases hnan : String.ofList (text.map Char.toLower) = "nan"
  · rw [if_neg hinfinity, if_pos hnan]
    exact ⟨_, rfl⟩
  · rw [if_neg hinfinity, if_neg hnan, hdecimal]
    exact ⟨_, rfl⟩

/-- A sign in front of a number is its only one. -/
theorem splitSign_of_numberText (hnumber : NumberText (dropMinus text) kind) :
    ∃ negative, splitSign text = (negative, dropMinus text) := by
  have hchars := hnumber.isDigit_or_point
  unfold splitSign
  split
  · exact ⟨true, rfl⟩
  · next later =>
    exact absurd (hchars '+' List.mem_cons_self) (by decide)
  · next hminus _ =>
    exact ⟨false, by rw [dropMinus_of_ne hminus]⟩

/-- A token that is a number is read as a double. -/
theorem exists_readDouble? {token : String}
    (hnumber : NumberText (dropMinus token.toList) kind) :
    ∃ value, readDouble? token = some value := by
  obtain ⟨decimal, hdecimal⟩ := exists_readDecimal? hnumber
  obtain ⟨negative, hsign⟩ := splitSign_of_numberText hnumber
  obtain ⟨magnitude, hmagnitude⟩ := exists_readUnsignedDouble? hdecimal
  rw [readDouble?, hsign]
  simp only [hmagnitude]
  exact ⟨_, rfl⟩

theorem ofDoubleLiteral_of_numberText {token : String}
    (hnumber : NumberText (dropMinus token.toList) kind) :
    ∃ value, readDouble? token = some value ∧
      Value.ofDoubleLiteral token = .double value := by
  obtain ⟨value, hvalue⟩ := exists_readDouble? hnumber
  exact ⟨value, hvalue, by rw [Value.ofDoubleLiteral, hvalue]⟩

/-- A token that is a number stands for a number. -/
theorem ofLiteral_of_numberText {token : String}
    (hnumber : NumberText (dropMinus token.toList) kind) :
    (∃ value, Value.ofLiteral token = .int value) ∨
      ∃ value, Value.ofLiteral token = .double value := by
  obtain ⟨double, -, hdouble⟩ := ofDoubleLiteral_of_numberText hnumber
  rw [Value.ofLiteral, inferKind_of_numberText hnumber]
  rcases hnumber.int_or_double with rfl | rfl
  · dsimp only
    split
    · next value _ => exact Or.inl ⟨value, rfl⟩
    · exact Or.inr ⟨double, hdouble⟩
  · exact Or.inr ⟨double, hdouble⟩

end Reading

/-- The kind of a token is found by its grammar, and a token of a number's kind
stands for a number. -/
theorem inferKind_recognises_grammar (token : String) :
    (inferKind token = .bool ↔ token = "true" ∨ token = "false") ∧
    (inferKind token = .absent ↔ token = "") ∧
    (inferKind token = .int ↔ token.toList ∈ Pattern.integer.matches') ∧
    (inferKind token = .double ↔ token.toList ∈ Pattern.double.matches') ∧
    (inferKind token = .text ↔
      ¬ (token = "true" ∨ token = "false") ∧ token ≠ "" ∧
      token.toList ∉ Pattern.integer.matches' ∧
      token.toList ∉ Pattern.double.matches') ∧
    (inferKind token = .int ∨ inferKind token = .double →
      (∃ value, Value.ofLiteral token = .int value) ∨
        ∃ value, Value.ofLiteral token = .double value) := by
  have hint : inferKind token = .int ↔
      token.toList ∈ Pattern.integer.matches' := by
    rw [inferKind_eq_number_iff (Or.inl rfl), Pattern.mem_integer_iff]
  have hdouble : inferKind token = .double ↔
      token.toList ∈ Pattern.double.matches' := by
    rw [inferKind_eq_number_iff (Or.inr rfl), Pattern.mem_double_iff]
  have hbool : inferKind token = .bool ↔ token = "true" ∨ token = "false" := by
    constructor
    · rw [inferKind_eq_iff]
      intro hhas
      cases hhas with
      | bool hword => exact hword
      | number hnumber => simpa using hnumber.int_or_double
    · exact fun hword => inferKind_eq_iff.mpr (.bool hword)
  have habsent : inferKind token = .absent ↔ token = "" := by
    constructor
    · rw [inferKind_eq_iff]
      intro hhas
      cases hhas with
      | absent hempty => exact hempty
      | number hnumber => simpa using hnumber.int_or_double
    · exact fun hempty => inferKind_eq_iff.mpr (.absent hempty)
  refine ⟨hbool, habsent, hint, hdouble, ?_, ?_⟩
  · rw [← hint, ← hdouble, ← hbool, ne_eq, ← habsent]
    have harray := (hasKind_inferKind token).ne_array
    cases hkind : inferKind token <;> simp_all
  · rintro (hkind | hkind)
    · exact ofLiteral_of_numberText
        ((inferKind_eq_number_iff (Or.inl rfl)).mp hkind)
    · exact ofLiteral_of_numberText
        ((inferKind_eq_number_iff (Or.inr rfl)).mp hkind)

/-- A minus sign and a point at the end leave the number an integer. -/
theorem inferKind_recognises_grammar_minus_point :
    inferKind "-3." = .int ∧ "-3.".toList ∈ Pattern.integer.matches' ∧
      ((∃ value, Value.ofLiteral "-3." = .int value) ∨
        ∃ value, Value.ofLiteral "-3." = .double value) := by
  obtain ⟨-, -, hint, -, -, hvalue⟩ := inferKind_recognises_grammar "-3."
  have hkind : inferKind "-3." = .int := by decide +kernel
  exact ⟨hkind, hint.mp hkind, hvalue (Or.inl hkind)⟩

end LineScript
