/-
What the text of a value tells.  The text of a truth value, an integer or nothing
reads back as that value, and so does a text that no other kind can be taken for;
arrays never do.  Integers have different texts, so a comparison of two integers
as numbers and a comparison of any other values as texts are one and the same
equality, unless two numbers are compared as doubles.
-/
import LineScript.ExpressionValue
import LineScript.Proofs.NumberLiterals

namespace LineScript

/-- No quote mark stands at either end of a text. -/
def Unquoted (text : String) : Prop :=
  text.toList.head? ≠ some quoteMark ∧ text.toList.getLast? ≠ some quoteMark

instance (text : String) : Decidable (Unquoted text) :=
  inferInstanceAs (Decidable (_ ∧ _))

theorem dropQuote_of_head {text : List Char}
    (hhead : text.head? ≠ some quoteMark) : dropQuote text = text := by
  cases text with
  | nil => rfl
  | cons c later =>
      have hmark : c ≠ quoteMark := by simpa using hhead
      exact if_neg hmark

/-- A quote mark in front makes the text shorter. -/
theorem length_dropQuote (text : List Char) :
    (dropQuote text).length ≤ text.length ∧
      ((dropQuote text).length = text.length →
        text.head? ≠ some quoteMark) := by
  cases text with
  | nil => simp [dropQuote]
  | cons c later =>
      by_cases hmark : c = quoteMark
      · simp [dropQuote, hmark]
      · simp [dropQuote, hmark]

/-- Only a text without quote marks at its ends stays as it is: no mark that is
dropped comes back. -/
theorem stripQuotes_eq_self_iff {text : String} :
    stripQuotes text = text ↔ Unquoted text := by
  have hlist : stripQuotes text = text ↔
      (dropQuote (dropQuote text.toList).reverse).reverse = text.toList := by
    rw [stripQuotes, ← String.toList_inj, String.toList_ofList]
  rw [hlist, Unquoted]
  constructor
  · intro hsame
    obtain ⟨hfront, hhead⟩ := length_dropQuote text.toList
    obtain ⟨hback, hlast⟩ := length_dropQuote (dropQuote text.toList).reverse
    have hlength := congrArg List.length hsame
    rw [List.length_reverse] at hback hlast hlength
    have hkept := hhead (by omega)
    have hlast := hlast (by omega)
    rw [dropQuote_of_head hkept, List.head?_reverse] at hlast
    exact ⟨hkept, hlast⟩
  · rintro ⟨hhead, hlast⟩
    rw [← List.head?_reverse] at hlast
    rw [dropQuote_of_head hhead, dropQuote_of_head hlast, List.reverse_reverse]

/-- A text literal stands for itself without its quote marks. -/
theorem ofLiteral_of_text {token : String} (hkind : inferKind token = .text) :
    Value.ofLiteral token = .text (stripQuotes token) := by
  rw [Value.ofLiteral, hkind]

/-- A literal that is read as a number, a truth value or nothing is no text. -/
theorem inferKind_of_ofLiteral_text {token text : String}
    (htext : Value.ofLiteral token = .text text) : inferKind token = .text := by
  by_cases hkind : inferKind token = .int
  · have hvalue : ∀ value, Value.ofLiteral token ≠ .int value := by
      intro value
      rw [htext]
      nofun
    obtain ⟨double, -, hdouble⟩ := ofLiteral_eq_double hkind hvalue
    rw [htext] at hdouble
    contradiction
  · rw [← kind_ofLiteral_of_ne_int hkind, htext]
    rfl

theorem ofLiteral_eq_text_iff {token text : String} :
    Value.ofLiteral token = .text text ↔
      inferKind token = .text ∧ stripQuotes token = text := by
  constructor
  · intro htext
    have hkind := inferKind_of_ofLiteral_text htext
    rw [ofLiteral_of_text hkind, Value.text.injEq] at htext
    exact ⟨hkind, htext⟩
  · rintro ⟨hkind, rfl⟩
    exact ofLiteral_of_text hkind

namespace Value

/-- The values that are not doubles and are known by their text alone. -/
inductive ReadsBack : Value → Prop
  | bool (value : Bool) : ReadsBack (.bool value)
  | int (value : Int64) : ReadsBack (.int value)
  | absent : ReadsBack .absent
  | text {text : String} :
    inferKind text = .text → Unquoted text → ReadsBack (.text text)

theorem ofLiteral_render_bool (value : Bool) :
    ofLiteral (render (.bool value)) = .bool value := by
  cases value with
  | false => rfl
  | true => rfl

/-- The text of a value other than a double reads back as that value just where
the value is known by its text. -/
theorem ofLiteral_render_eq_iff {value : Value} (hkind : value.kind ≠ .double) :
    ofLiteral value.render = value ↔ value.ReadsBack := by
  cases value with
  | bool value => exact iff_of_true (ofLiteral_render_bool value) (.bool value)
  | int value => exact iff_of_true (ofLiteral_integerText value) (.int value)
  | double value => exact absurd rfl hkind
  | text text =>
      rw [render, ofLiteral_eq_text_iff, stripQuotes_eq_self_iff]
      constructor
      · rintro ⟨htext, hunquoted⟩
        exact .text htext hunquoted
      · intro hreads
        cases hreads with
        | text htext hunquoted => exact ⟨htext, hunquoted⟩
  | array elements =>
      refine iff_of_false (ofLiteral_ne_array _ elements) ?_
      intro hreads
      cases hreads
  | absent => exact iff_of_true rfl .absent

/-- Values that are neither doubles nor arrays are equal when they are the
same. -/
theorem beq_eq_true_iff_of_kind {left right : Value}
    (hdouble : right.kind ≠ .double) (harray : right.kind ≠ .array) :
    (left == right) = true ↔ left = right := by
  change equal left right = true ↔ left = right
  cases right with
  | double _ | array _ => contradiction
  | bool _ | int _ | text _ | absent => cases left <;> simp [equal]

theorem beq_array_eq_false {left : Value} {elements : List Value}
    (hleft : ∀ others, left ≠ .array others) :
    (left == .array elements) = false := by
  change equal left (.array elements) = false
  cases left with
  | array others => exact absurd rfl (hleft others)
  | _ => simp [equal]

/-- A text that reads back as an equal value reads back as the value itself. -/
theorem ofLiteral_render_beq_iff {value : Value}
    (hkind : value.kind ≠ .double) :
    (ofLiteral value.render == value) = true ↔
      ofLiteral value.render = value := by
  by_cases harray : value.kind = .array
  · cases value with
    | array elements =>
        have hnone := ofLiteral_ne_array (render (.array elements))
        rw [beq_array_eq_false hnone]
        exact iff_of_false (by simp) (hnone elements)
    | _ => contradiction
  · exact beq_eq_true_iff_of_kind hkind harray

end Value

/-- An unquoted token that writes no double stands for a value that is known by its
text. -/
theorem readsBack_ofLiteral {token : String} (htoken : Unquoted token)
    (hkind : (Value.ofLiteral token).kind ≠ .double) :
    (Value.ofLiteral token).ReadsBack := by
  cases hvalue : Value.ofLiteral token with
  | bool value => exact .bool value
  | int value => exact .int value
  | double value => exact absurd (congrArg Value.kind hvalue) hkind
  | text text =>
      obtain ⟨htext, hstripped⟩ := ofLiteral_eq_text_iff.mp hvalue
      rw [stripQuotes_eq_self_iff.mpr htoken] at hstripped
      exact hstripped ▸ .text htext htoken
  | array elements => exact absurd hvalue (ofLiteral_ne_array token elements)
  | absent => exact .absent

/-- The text of a value other than a double reads back as that value (or, which is
the same here, as an equal one) exactly for truth values, integers, nothing, and
the unquoted texts that are taken for texts.  So reading the text of what an
unquoted token stands for gives that value again, unless it is a double. -/
theorem displayed_values_read_back_iff :
    (∀ value : Value, value.kind ≠ .double →
      (Value.ofLiteral value.render = value ↔ value.ReadsBack) ∧
      ((Value.ofLiteral value.render == value) = true ↔ value.ReadsBack)) ∧
    (∀ token, Unquoted token → (Value.ofLiteral token).kind ≠ .double →
      Value.ofLiteral (Value.ofLiteral token).render = Value.ofLiteral token ∧
      (Value.ofLiteral (Value.ofLiteral token).render ==
        Value.ofLiteral token) = true) := by
  constructor
  · intro value hkind
    have hsame := Value.ofLiteral_render_eq_iff hkind
    exact ⟨hsame, (Value.ofLiteral_render_beq_iff hkind).trans hsame⟩
  · intro token htoken hkind
    have hsame := (Value.ofLiteral_render_eq_iff hkind).mpr
      (readsBack_ofLiteral htoken hkind)
    exact ⟨hsame, (Value.ofLiteral_render_beq_iff hkind).mpr hsame⟩

/-- An array of one integer does not read back.  Leading zeros and a fraction of
zeros are gone from the text of an integer token, but the integer is the same. -/
theorem displayed_values_read_back_mixed :
    Value.ofLiteral (Value.render (.array [.int 7])) ≠ .array [.int 7] ∧
    Value.ofLiteral (Value.render (.text "'a")) ≠ .text "'a" ∧
    Value.ofLiteral (Value.render (.text "it's")) = .text "it's" ∧
    Value.ofLiteral (Value.ofLiteral "-007.0").render =
      Value.ofLiteral "-007.0" := by
  obtain ⟨hvalues, htokens⟩ := displayed_values_read_back_iff
  have hint : Value.ofLiteral "-007.0" = .int (-7) :=
    (ofLiteral_eq_int_iff (by decide +kernel)).mpr (by decide +kernel)
  refine ⟨?_, ?_, ?_, ?_⟩
  · intro hsame
    nomatch (hvalues (.array [.int 7]) (by decide)).1.mp hsame
  · intro hsame
    cases (hvalues (.text "'a") (by decide)).1.mp hsame with
    | text _ hunquoted => exact absurd hunquoted (by decide +kernel)
  · exact (hvalues (.text "it's") (by decide)).1.mpr
      (.text (by decide +kernel) (by decide +kernel))
  · exact (htokens "-007.0" (by decide +kernel) (by rw [hint]; decide)).1

theorem integerText_inj {left right : Int64} :
    integerText left = integerText right ↔ left = right := by
  constructor
  · intro htext
    have hread := readInteger_integerText left
    rw [htext, readInteger_integerText] at hread
    exact (Except.ok.inj hread).symm
  · intro hsame
    rw [hsame]

/-- Two numbers of which at least one is a double. -/
def ComparedAsDoubles (left right : Value) : Prop :=
  left.isNumeric = true ∧ right.isNumeric = true ∧
    (left.kind = .double ∨ right.kind = .double)

theorem integers_or_not_numeric {left right : Value}
    (hdoubles : ¬ ComparedAsDoubles left right) :
    (∃ first second, left = .int first ∧ right = .int second) ∨
      (left.isNumeric && right.isNumeric) = false := by
  cases left with
  | int first =>
      cases right with
      | int second => exact Or.inl ⟨first, second, rfl, rfl⟩
      | double second => exact absurd ⟨rfl, rfl, Or.inr rfl⟩ hdoubles
      | _ => exact Or.inr rfl
  | double first =>
      cases right with
      | int _ | double _ => exact absurd ⟨rfl, rfl, Or.inl rfl⟩ hdoubles
      | _ => exact Or.inr rfl
  | _ => exact Or.inr rfl

/-- Values that are not both numbers are compared by their texts. -/
theorem compareValues_of_not_numeric {left right : Value}
    (hnumeric : (left.isNumeric && right.isNumeric) = false) :
    compareValues left Comparison.equal.symbol right =
        .ok (decide (left.render = right.render)) ∧
      compareValues left Comparison.unequal.symbol right =
        .ok (!decide (left.render = right.render)) := by
  have hsymbols : Comparison.unequal.symbol ≠ Comparison.equal.symbol := by
    decide
  unfold compareValues
  split
  · contradiction
  · simp [hnumeric, hsymbols]

/-- Integers are compared as numbers, which their texts tell apart. -/
theorem compareValues_integers_by_text (left right : Int64) :
    compareValues (.int left) Comparison.equal.symbol (.int right) =
        .ok (decide (integerText left = integerText right)) ∧
      compareValues (.int left) Comparison.unequal.symbol (.int right) =
        .ok (!decide (integerText left = integerText right)) := by
  rw [compareValues_integers, compareValues_integers]
  simp [Comparison.Relates, integerText_inj, Int64.toInt_inj]

/-- The comparison of two values for equality holds. -/
def Value.ComparesEqual (left right : Value) : Prop :=
  compareValues left Comparison.equal.symbol right = .ok true

theorem compareValues_by_text {left right : Value}
    (hdoubles : ¬ ComparedAsDoubles left right) :
    compareValues left Comparison.equal.symbol right =
        .ok (decide (left.render = right.render)) ∧
      compareValues left Comparison.unequal.symbol right =
        .ok (!decide (left.render = right.render)) := by
  rcases integers_or_not_numeric hdoubles with
    ⟨first, second, rfl, rfl⟩ | hnumeric
  · exact compareValues_integers_by_text first second
  · exact compareValues_of_not_numeric hnumeric

theorem comparesEqual_iff_of_kind {left right : Value}
    (hleft : left.kind ≠ .double) (hright : right.kind ≠ .double) :
    left.ComparesEqual right ↔ left.render = right.render := by
  have hdoubles : ¬ ComparedAsDoubles left right := by
    rintro ⟨_, _, hkind | hkind⟩
    · exact hleft hkind
    · exact hright hkind
  rw [Value.ComparesEqual, (compareValues_by_text hdoubles).1]
  simp

/-- Unless two numbers are compared as doubles, a comparison for equality never
fails and holds just where the texts are the same, and a comparison for inequality
is its negation.  So on the values that are not doubles, of whatever kinds and
whatever their arrays hold, equality is an equivalence. -/
theorem equality_is_that_of_texts :
    (∀ left right, ¬ ComparedAsDoubles left right →
      compareValues left "==" right =
          .ok (decide (left.render = right.render)) ∧
        compareValues left "!=" right =
          .ok (!decide (left.render = right.render))) ∧
    Equivalence fun left right : {value : Value // value.kind ≠ .double} =>
      left.val.ComparesEqual right.val := by
  refine ⟨fun _ _ hdoubles => compareValues_by_text hdoubles, ?_, ?_, ?_⟩
  · rintro ⟨value, hvalue⟩
    exact (comparesEqual_iff_of_kind hvalue hvalue).mpr rfl
  · rintro ⟨left, hleft⟩ ⟨right, hright⟩ hequal
    have htexts := (comparesEqual_iff_of_kind hleft hright).mp hequal
    exact (comparesEqual_iff_of_kind hright hleft).mpr htexts.symm
  · rintro ⟨left, hleft⟩ ⟨middle, hmiddle⟩ ⟨right, hright⟩ hfirst hsecond
    have hfront := (comparesEqual_iff_of_kind hleft hmiddle).mp hfirst
    have hback := (comparesEqual_iff_of_kind hmiddle hright).mp hsecond
    exact (comparesEqual_iff_of_kind hleft hright).mpr (hfront.trans hback)

/-- An array, a text and an array of other kinds with one text between them. -/
theorem equality_is_that_of_texts_nested :
    compareValues (.array [.int 1, .array [.bool true]]) "=="
        (.text "[1 [true]]") = .ok true ∧
      compareValues (.text "[1 [true]]") "!="
        (.array [.text "1", .text "[true]"]) = .ok false ∧
      compareValues (.int 7) "==" (.text "07") = .ok false := by
  obtain ⟨htexts, -⟩ := equality_is_that_of_texts
  refine ⟨?_, ?_, ?_⟩
  · rw [(htexts _ _ (by simp [ComparedAsDoubles, Value.isNumeric])).1]
    decide +kernel
  · rw [(htexts _ _ (by simp [ComparedAsDoubles, Value.isNumeric])).2]
    decide +kernel
  · rw [(htexts _ _ (by simp [ComparedAsDoubles, Value.isNumeric])).1]
    decide +kernel

end LineScript
