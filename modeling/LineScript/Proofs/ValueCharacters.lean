/-
The characters in the texts of values.  Numbers and truth values are written
without blanks, and arrays bring in no blanks but spaces.  So a blank other than
the space stands in the text of a value only if it stands in a text that the value
holds, at whatever depth of its arrays.
-/
import LineScript.Literal
import LineScript.StoreReport
import LineScript.Proofs.IntegerArithmetic

namespace LineScript

/-- A blank other than the space, like those that end lines and columns. -/
def IsBreak (c : Char) : Prop :=
  isBlank c = true ∧ c ≠ ' '

instance (c : Char) : Decidable (IsBreak c) :=
  inferInstanceAs (Decidable (_ ∧ _))

/-- There is no blank in a text. -/
def Unbroken (text : List Char) : Prop :=
  ∀ c ∈ text, isBlank c = false

instance (text : List Char) : Decidable (Unbroken text) :=
  decidable_of_iff ((text.all fun c => !isBlank c) = true) (by simp [Unbroken])

namespace Unbroken

variable {front back digits : List Char}

theorem of_digits (hdigits : ∀ c ∈ digits, c.isDigit = true) :
    Unbroken digits := by
  intro c hc
  exact (isOperandChar_iff.mp (isOperandChar_of_isDigit (hdigits c hc))).1

theorem append (hfront : Unbroken front) (hback : Unbroken back) :
    Unbroken (front ++ back) :=
  List.forall_mem_append.mpr ⟨hfront, hback⟩

theorem cons {c : Char} (hc : isBlank c = false) (hback : Unbroken back) :
    Unbroken (c :: back) :=
  List.forall_mem_cons.mpr ⟨hc, hback⟩

theorem subset (hfront : Unbroken front) (hsubset : back ⊆ front) :
    Unbroken back :=
  fun c hc => hfront c (hsubset hc)

theorem zeros (count : Nat) : Unbroken (List.replicate count '0') := by
  intro c hc
  rw [List.eq_of_mem_replicate hc]
  rfl

theorem withSign (negative : Bool) (hdigits : Unbroken digits) :
    Unbroken (withSign negative digits) := by
  cases negative with
  | false => exact hdigits
  | true => exact hdigits.cons rfl

theorem not_mem {text : List Char} (htext : Unbroken text) {c : Char}
    (hbreak : IsBreak c) : c ∉ text := by
  intro hc
  have hblank := hbreak.1
  rw [htext c hc] at hblank
  contradiction

end Unbroken

theorem dropTrailingZeros_subset (digits : List Char) :
    dropTrailingZeros digits ⊆ digits := by
  intro c hc
  rw [dropTrailingZeros, List.mem_reverse] at hc
  exact List.mem_reverse.mp ((List.dropWhile_sublist _).subset hc)

/-- A decimal is written with digits and a point. -/
theorem unbroken_positional (decimal : Decimal) :
    Unbroken decimal.positional := by
  have hdigits : Unbroken (Nat.toDigits 10 decimal.digits) :=
    .of_digits (isDigit_toDigits decimal.digits)
  simp only [Decimal.positional]
  split
  · exact hdigits.append (.zeros _)
  · have hpadded (count : Nat) :
        Unbroken (List.replicate count '0' ++ Nat.toDigits 10 decimal.digits) :=
      (Unbroken.zeros count).append hdigits
    split
    · exact (hpadded _).subset (List.take_subset _ _)
    · refine ((hpadded _).subset (List.take_subset _ _)).append (.cons rfl ?_)
      exact ((hpadded _).subset (List.drop_subset _ _)).subset
        (dropTrailingZeros_subset _)

theorem unbroken_doubleText (value : Float) :
    Unbroken (doubleText value).toList := by
  rw [doubleText, String.toList_ofList]
  split
  · decide
  · exact .withSign _ (by decide)
  · refine .withSign _ ?_
    split
    · exact .zeros 1
    · exact unbroken_positional _

theorem dropQuote_subset (text : List Char) : dropQuote text ⊆ text := by
  cases text with
  | nil => exact List.Subset.refl []
  | cons c later =>
      simp only [dropQuote]
      split
      · exact List.subset_cons_self c later
      · exact List.Subset.refl _

namespace Value

mutual

/-- The texts that a value holds, at every depth of its arrays. -/
def texts : Value → List String
  | text value => [value]
  | array elements => textsAll elements
  | bool _ | int _ | double _ | absent => []

/-- The texts that the elements of an array hold. -/
def textsAll : List Value → List String
  | [] => []
  | value :: later => texts value ++ textsAll later

end

/-- A character stands in no text that a value holds. -/
def Lacks (c : Char) (value : Value) : Prop :=
  ∀ text ∈ value.texts, c ∉ text.toList

section Lacks

variable {c : Char}

@[simp]
theorem lacks_text {text : String} :
    (Value.text text).Lacks c ↔ c ∉ text.toList := by
  simp [Lacks, texts]

@[simp]
theorem lacks_array {elements : List Value} :
    (array elements).Lacks c ↔ ∀ element ∈ elements, element.Lacks c := by
  simp only [Lacks, texts]
  induction elements with
  | nil => simp [textsAll]
  | cons first later ih =>
      simp only [textsAll, List.forall_mem_append, List.forall_mem_cons, ih]

@[simp]
theorem lacks_bool (value : Bool) : (bool value).Lacks c := by
  simp [Lacks, texts]

@[simp]
theorem lacks_int (value : Int64) : (int value).Lacks c := by
  simp [Lacks, texts]

@[simp]
theorem lacks_double (value : Float) : (double value).Lacks c := by
  simp [Lacks, texts]

@[simp]
theorem lacks_absent : absent.Lacks c := by
  simp [Lacks, texts]

theorem notMem_brackets (hbreak : IsBreak c) {inside : List Char}
    (hinside : c ∉ inside) : c ∉ '[' :: (inside ++ [']']) := by
  have hopen : c ≠ '[' := by
    rintro rfl
    exact absurd hbreak (by decide)
  have hclose : c ≠ ']' := by
    rintro rfl
    exact absurd hbreak (by decide)
  simp [hopen, hclose, hinside]

mutual

/-- No break comes into the text of a value that holds none. -/
theorem notMem_render (hbreak : IsBreak c) :
    ∀ value : Value, value.Lacks c → c ∉ value.render.toList
  | bool true, _ => Unbroken.not_mem (by decide) hbreak
  | bool false, _ => Unbroken.not_mem (by decide) hbreak
  | int value, _ => Unbroken.not_mem (isWord_integerText value).2 hbreak
  | double value, _ => (unbroken_doubleText value).not_mem hbreak
  | text _, hlacks => lacks_text.mp hlacks
  | absent, _ => List.not_mem_nil
  | array elements, hlacks => by
    have helements := notMem_renderAll hbreak elements (lacks_array.mp hlacks)
    have hjoined : c ∉ (" ".intercalate (renderAll elements)).toList := by
      intro hc
      rw [String.toList_intercalate] at hc
      rcases mem_of_mem_intercalate hc with hspace | ⟨part, hpart, hmem⟩
      · exact hbreak.2 hspace
      · obtain ⟨text, htext, rfl⟩ := List.mem_map.mp hpart
        exact helements text htext hmem
    simpa [render] using notMem_brackets hbreak hjoined

/-- No break comes into the texts of elements that hold none. -/
theorem notMem_renderAll (hbreak : IsBreak c) : ∀ elements : List Value,
    (∀ element ∈ elements, element.Lacks c) →
      ∀ text ∈ renderAll elements, c ∉ text.toList
  | [], _ => by simp [renderAll]
  | first :: later, hlacks => by
    obtain ⟨hfirst, hlater⟩ := List.forall_mem_cons.mp hlacks
    exact List.forall_mem_cons.mpr
      ⟨notMem_render hbreak first hfirst,
        notMem_renderAll hbreak later hlater⟩

end

mutual

/-- No break comes into the report form of a value that holds none. -/
theorem notMem_reportText (hbreak : IsBreak c) :
    ∀ value : Value, value.Lacks c → c ∉ value.reportText.toList
  | array elements, hlacks => by
    have helements :=
      notMem_reportElements hbreak elements (lacks_array.mp hlacks)
    have hspaced : c ∉ (reportElements elements).toList ++ [' '] := by
      simp [helements, hbreak.2]
    simpa [reportText] using notMem_brackets hbreak hspaced
  | bool value, hlacks => notMem_render hbreak (bool value) hlacks
  | int value, hlacks => notMem_render hbreak (int value) hlacks
  | double value, hlacks => notMem_render hbreak (double value) hlacks
  | text value, hlacks => notMem_render hbreak (text value) hlacks
  | absent, hlacks => notMem_render hbreak absent hlacks

/-- No break comes into the report form of elements that hold none. -/
theorem notMem_reportElements (hbreak : IsBreak c) : ∀ elements : List Value,
    (∀ element ∈ elements, element.Lacks c) →
      c ∉ (reportElements elements).toList
  | [], _ => by simp [reportElements]
  | first :: later, hlacks => by
    obtain ⟨hfirst, hlater⟩ := List.forall_mem_cons.mp hlacks
    simp [reportElements, hbreak.2, notMem_reportText hbreak first hfirst,
      notMem_reportElements hbreak later hlater]

end

/-- A token's value holds only characters of the token. -/
theorem lacks_ofLiteral {token : String} (htoken : c ∉ token.toList) :
    (ofLiteral token).Lacks c := by
  have hdouble : (ofDoubleLiteral token).Lacks c := by
    unfold ofDoubleLiteral
    split
    · exact lacks_double _
    · exact lacks_text.mpr htoken
  have hstripped : c ∉ (stripQuotes token).toList := by
    intro hc
    rw [stripQuotes, String.toList_ofList, List.mem_reverse] at hc
    have hfront := List.mem_reverse.mp (dropQuote_subset _ hc)
    exact htoken (dropQuote_subset _ hfront)
  unfold ofLiteral
  split
  · exact lacks_bool _
  · split
    · exact lacks_int _
    · exact hdouble
  · exact hdouble
  · exact lacks_text.mpr hstripped
  · exact lacks_absent
  · exact lacks_absent

end Lacks

end Value

end LineScript
