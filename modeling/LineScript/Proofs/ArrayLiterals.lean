/-
Array literals.  A declaration between brackets and one that takes an array out of
another fill the same operand slots, and which of the two is meant is read from
the first slot again when the statement runs.  So a literal holds the values of its
elements exactly if its first element does not stand for one of the words that
take an array out of another.
-/
import LineScript.Proofs.ArrayLaws
import LineScript.Proofs.LineGrammar
import LineScript.Proofs.ParseRelation
import LineScript.Proofs.WordPieces

namespace LineScript

theorem empty_notMem_words (text : String) : "" ∉ words text :=
  fun hempty => (isWord_of_mem_words hempty).1 rfl

namespace Expression

theorem left_ofTokens (tokens : List String) :
    (ofTokens tokens).left = tokens.headD "" := by
  match tokens with
  | [] | [_] | [_, _] | _ :: _ :: _ :: _ => rfl

/-- A middle slot that is filled holds one of the tokens. -/
theorem middle_mem_of_ofTokens {tokens : List String}
    (hfilled : (ofTokens tokens).middle ≠ "") :
    (ofTokens tokens).middle ∈ tokens := by
  match tokens with
  | [] | [_] => contradiction
  | [_, _] | _ :: _ :: _ :: _ => simp [ofTokens]

end Expression

/-- No array holds an array that holds it. -/
theorem array_notMem_of_mem {outer inner : List Value}
    (hinner : Value.array inner ∈ outer) : Value.array outer ∉ inner := by
  intro houter
  have hdown := List.sizeOf_lt_of_mem hinner
  have hup := List.sizeOf_lt_of_mem houter
  simp only [Value.array.sizeOf_spec] at hdown hup
  omega

namespace Machine

/-- The token stands for a word that takes an array out of another. -/
def StandsForSource (machine : Machine) (token : String) : Prop :=
  machine.substitute token = Word.arrayAt ∨
    machine.substitute token = Word.arrayPop

instance (machine : Machine) (token : String) :
    Decidable (machine.StandsForSource token) :=
  inferInstanceAs (Decidable (_ ∨ _))

/-- What an element token stands for: the value of the variable with that name, or
the literal. -/
def elementValue (machine : Machine) (token : String) : Value :=
  let name := machine.substitute token
  (machine.store.value? name).getD (.ofLiteral name)

theorem resolve_eq_elementValue (machine : Machine) {token : String}
    (htoken : token ≠ "") : machine.resolve token = machine.elementValue token :=
  if_neg htoken

/-- Neither a parameter nor a variable has an empty name. -/
structure NamesFilled (machine : Machine) : Prop where
  parameter : "" ∉ machine.parameters
  stored : machine.store.get? "" = none

/-- The array holds the values that its element tokens had before, and nothing
else has changed. -/
structure HoldsElements (before after : Machine) (name : String)
    (tokens : List String) : Prop where
  array : after.store.HoldsArray name (tokens.map before.elementValue)
  others : ∀ other, other ≠ name →
    after.store.get? other = before.store.get? other
  rest : ChangesStore before after

section Initial

variable {machine : Machine} {expression : Expression}

theorem initialElements_of_literal
    (hliteral : ¬ machine.StandsForSource expression.left) :
    machine.initialElements expression =
      .ok (expression.operands.map machine.resolve, machine.store) := by
  rw [StandsForSource, not_or] at hliteral
  simp only [initialElements, if_neg hliteral.1, if_neg hliteral.2]
  rfl

theorem initialElements_rewrites {elements : List Value} {store : Store}
    (hinitial : machine.initialElements expression = .ok (elements, store)) :
    machine.store.Rewrites (machine.poppedNames expression) store := by
  have hrewrites := InPlace.initialElements_rewritesOnly machine.bindings
    expression machine.store
  have hsettles := InPlace.initialElements_settles machine expression
  rw [InPlace.Settles, hinitial] at hsettles
  rw [hsettles] at hrewrites
  exact hrewrites

/-- An array that is taken out of another is an element of that. -/
theorem exists_of_initialElements {elements : List Value} {store : Store}
    (hsource : machine.StandsForSource expression.left)
    (hinitial : machine.initialElements expression = .ok (elements, store)) :
    ∃ outer, .array elements ∈ outer ∧
      machine.store.value? (machine.substitute expression.middle) =
        some (.array outer) := by
  have hdiffer : Word.arrayPop ≠ Word.arrayAt := by decide
  rcases hsource with hat | hpop
  · simp only [initialElements, hat, if_true] at hinitial
    obtain ⟨element, helement, hrest⟩ := bind_eq_ok_iff.mp hinitial
    cases element with
    | array inner =>
        rw [pure_eq_ok_iff, Prod.mk.injEq] at hrest
        exact hrest.1 ▸ exists_of_arrayElement helement
    | _ => simp at hrest
  · simp only [initialElements, hpop, hdiffer, if_false, if_true] at hinitial
    obtain ⟨element, helement, hrest⟩ := bind_eq_ok_iff.mp hinitial
    cases element with
    | array inner =>
        obtain ⟨popped, _, hpair⟩ := bind_eq_ok_iff.mp hrest
        rw [pure_eq_ok_iff, Prod.mk.injEq] at hpair
        exact hpair.1 ▸ exists_of_lastElement helement
    | _ => simp at hrest

end Initial

section Declaration

variable {machine after : Machine} {statement : Statement}

theorem declareArray_of_absent
    (habsent : machine.store.get? (machine.targetName statement) = none) :
    machine.declareArray statement =
      (machine.initialElements statement.expression).map
        fun (elements, store) =>
          { machine with
            store := store.declare (machine.targetName statement)
              ⟨.array elements, false⟩ } := by
  simp only [declareArray, Store.contains_eq_false_iff.mpr habsent,
    Bool.false_eq_true, if_false]
  cases machine.initialElements statement.expression <;> rfl

theorem holdsElements_of_literal {tokens : List String}
    (hslots : statement.expression.operands = tokens)
    (hliteral : ¬ machine.StandsForSource statement.expression.left)
    (habsent : machine.store.get? (machine.targetName statement) = none) :
    ∃ after, machine.declareArray statement = .ok after ∧
      HoldsElements machine after (machine.targetName statement) tokens := by
  have hvalues : statement.expression.operands.map machine.resolve =
      tokens.map machine.elementValue := by
    rw [← hslots]
    apply List.map_congr_left
    intro token htoken
    have hfilled : token ≠ "" := by simpa using (List.mem_filter.mp htoken).2
    exact machine.resolve_eq_elementValue hfilled
  have hget := fun other => Store.get?_declare habsent
    ⟨.array (tokens.map machine.elementValue), false⟩ other
  rw [declareArray_of_absent habsent, initialElements_of_literal hliteral,
    hvalues]
  refine ⟨_, rfl, ?_, fun other hother => ?_, rfl⟩
  · exact (hget _).trans (if_pos rfl)
  · exact (hget other).trans (if_neg hother)

/-- An array that is taken out of another does not hold that array, as it would
if the literal held its elements. -/
theorem not_holdsElements_of_source {tokens : List String}
    (hfilled : machine.NamesFilled)
    (hslots : statement.expression = .ofTokens tokens)
    (hsource : machine.StandsForSource statement.expression.left)
    (habsent : machine.store.get? (machine.targetName statement) = none)
    (hdeclare : machine.declareArray statement = .ok after) :
    ¬ HoldsElements machine after (machine.targetName statement) tokens := by
  intro hholds
  rw [declareArray_of_absent habsent, map_eq_ok_iff] at hdeclare
  obtain ⟨⟨elements, store⟩, hinitial, rfl⟩ := hdeclare
  obtain ⟨outer, hinner, hvalue⟩ := exists_of_initialElements hsource hinitial
  have hstill : store.get? (machine.targetName statement) = none :=
    (initialElements_rewrites hinitial).get?_eq_none_iff.mpr habsent
  have helements : elements = tokens.map machine.elementValue := by
    have hheld := hholds.array
    rw [Store.HoldsArray, Store.get?_declare hstill, if_pos rfl] at hheld
    simpa using hheld
  have hgiven : statement.expression.middle ≠ "" := by
    intro hempty
    rw [hempty, substitute_of_not_mem hfilled.parameter, Store.value?,
      hfilled.stored] at hvalue
    contradiction
  have hmiddle : statement.expression.middle ∈ tokens := by
    rw [hslots] at hgiven ⊢
    exact Expression.middle_mem_of_ofTokens hgiven
  have houter : Value.array outer ∈ tokens.map machine.elementValue := by
    refine List.mem_map.mpr ⟨_, hmiddle, ?_⟩
    rw [elementValue, hvalue]
    rfl
  rw [← helements] at houter
  exact array_notMem_of_mem hinner houter

end Declaration

end Machine

/-- The tokens of the line that declares an array between brackets. -/
def literalTokens (target : String) (elements : List String) : List String :=
  "var[]" :: target :: Word.assign :: Word.arrayOpen ::
    (elements ++ [Word.arrayClose])

/-- The statement on such a line. -/
def literalStatement (line : SourceLine) (elements : List String) :
    Statement where
  kind := .arrayDeclare
  line := line.tokens
  lineNo := line.number
  expression := .ofTokens elements

section Literal

variable {line : SourceLine} {target : String} {elements : List String}

theorem parseLine_of_literal
    (hline : line.tokens = literalTokens target elements)
    (hcount : elements.length ≤ 3) :
    parseLine line = .ok (literalStatement line elements) := by
  have hshape : LineShape .arrayDeclare line.tokens elements := by
    rw [hline]
    exact .elements ⟨Nat.zero_le _, hcount⟩
  exact parseLine_eq_ok_iff.mpr
    ⟨_, _, hshape.classify_eq, hshape.operandSlots_eq, rfl⟩

theorem operands_literalStatement
    (hline : line.tokens = literalTokens target elements)
    (hcount : elements.length ≤ 3) :
    (literalStatement line elements).expression.operands = elements := by
  apply Expression.operands_ofTokens hcount
  intro hempty
  have hword : "" ∉ line.tokens := empty_notMem_words line.text
  simp [hline, literalTokens, hempty] at hword

namespace Machine

variable {machine : Machine}

theorem targetName_literalStatement (machine : Machine)
    (hline : line.tokens = literalTokens target elements) :
    machine.targetName (literalStatement line elements) =
      machine.substitute target := by
  simp [targetName, Statement.target?, literalStatement, hline, literalTokens]

theorem standsForSource_left_iff (hfilled : machine.NamesFilled) :
    machine.StandsForSource (Expression.ofTokens elements).left ↔
      ∃ first ∈ elements.head?, machine.StandsForSource first := by
  rw [Expression.left_ofTokens]
  cases elements with
  | nil =>
      have hempty := substitute_of_not_mem hfilled.parameter
      simp [StandsForSource, hempty, Word.arrayAt, Word.arrayPop]
  | cons first later => simp

/-- A line that declares an array between brackets parses, and where the name is
free its statement declares the array of the values that its elements had, and
changes nothing else, exactly if the first element does not stand for a word that
takes an array out of another. -/
theorem arrayLiteral_holds_elements_iff (hfilled : machine.NamesFilled)
    (hline : line.tokens = literalTokens target elements)
    (hcount : elements.length ≤ 3)
    (habsent : machine.store.get? (machine.substitute target) = none) :
    ∃ statement, parseLine line = .ok statement ∧
      ((∃ after,
          (∀ budget, runStatement (budget + 1) statement machine =
            some (.ok .next, after)) ∧
          HoldsElements machine after (machine.substitute target) elements) ↔
        ¬ ∃ first ∈ elements.head?, machine.StandsForSource first) := by
  let statement := literalStatement line elements
  have htarget := targetName_literalStatement machine hline
  have hperform : machine.perform statement .arrayDeclare =
      machine.commit (machine.declareArray statement) := rfl
  refine ⟨statement, parseLine_of_literal hline hcount, ?_⟩
  rw [← standsForSource_left_iff hfilled, ← htarget]
  rw [← htarget] at habsent
  constructor
  · rintro ⟨after, hrun, hholds⟩ hsource
    have hdeclare : machine.declareArray statement = .ok after :=
      change_of_runStatement rfl rfl hperform (hrun 0)
    exact not_holdsElements_of_source hfilled rfl hsource habsent hdeclare
      hholds
  · intro hliteral
    obtain ⟨after, hdeclare, hholds⟩ := holdsElements_of_literal
      (operands_literalStatement hline hcount) hliteral habsent
    refine ⟨after, fun budget => ?_, hholds⟩
    rw [runStatement_of_commit rfl rfl hperform, hdeclare]
    rfl

end Machine

end Literal

namespace Machine

/-- A machine with an array in an array, inside a call whose parameter stands for
the outer one. -/
def withNestedArray : Machine where
  store := { innermost := [("b", ⟨.array [.array [.int 5]], false⟩)] }
  bindings := [[("p", "b")]]
  calls := 1

theorem arrayLiteral_holds_parameter :
    withNestedArray.NamesFilled ∧
    SourceLine.tokens ⟨3, "var[] a = [ p 7 ]"⟩ =
      literalTokens "a" ["p", "7"] ∧
    withNestedArray.store.get? (withNestedArray.substitute "a") = none ∧
    ∃ statement after,
      parseLine ⟨3, "var[] a = [ p 7 ]"⟩ = .ok statement ∧
      runStatement 1 statement withNestedArray = some (.ok .next, after) ∧
      after.store.HoldsArray "a" [.array [.array [.int 5]], .int 7] := by
  have hfilled : withNestedArray.NamesFilled := ⟨by decide, rfl⟩
  have hline : SourceLine.tokens ⟨3, "var[] a = [ p 7 ]"⟩ =
      literalTokens "a" ["p", "7"] := by decide +kernel
  have habsent :
      withNestedArray.store.get? (withNestedArray.substitute "a") = none := rfl
  obtain ⟨statement, hparse, hholds⟩ :=
    arrayLiteral_holds_elements_iff hfilled hline (by decide) habsent
  obtain ⟨after, hrun, helements⟩ := hholds.mpr (by
    rintro ⟨first, hfirst, hsource⟩
    obtain rfl := Option.some.inj hfirst
    exact absurd hsource (by decide))
  exact ⟨hfilled, hline, habsent, statement, after, hparse, hrun 0,
    helements.array⟩

/-- A literal that starts with such a word, although it has the brackets. -/
def bracketedPop : Statement where
  kind := .arrayDeclare
  line := literalTokens "a" [Word.arrayPop, "b"]
  lineNo := 3
  expression := .ofTokens [Word.arrayPop, "b"]

/-- It does not hold its elements: it holds those of an array that it has taken
out of another. -/
theorem bracketedPop_holds_no_elements :
    parseLine ⟨3, "var[] a = [ $array_pop b ]"⟩ = .ok bracketedPop ∧
    withNestedArray.store.get? "a" = none ∧
    ∃ after,
      runStatement 1 bracketedPop withNestedArray = some (.ok .next, after) ∧
      after.store.HoldsArray "a" [.int 5] ∧ after.store.HoldsArray "b" [] ∧
      ¬ HoldsElements withNestedArray after "a" [Word.arrayPop, "b"] := by
  have hline : SourceLine.tokens ⟨3, "var[] a = [ $array_pop b ]"⟩ =
      literalTokens "a" [Word.arrayPop, "b"] := by decide +kernel
  have hparse : parseLine ⟨3, "var[] a = [ $array_pop b ]"⟩ =
      .ok bracketedPop := by
    rw [parseLine_of_literal hline (by decide), literalStatement, hline]
    rfl
  refine ⟨hparse, rfl, _, rfl, rfl, rfl, ?_⟩
  intro hholds
  have hother := hholds.others "b" (by decide)
  cases hother

end Machine

end LineScript
