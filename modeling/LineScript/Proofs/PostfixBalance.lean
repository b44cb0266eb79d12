/-
What the rearrangement of lexemes keeps.  Operands come out in their order, and
every operator comes out once.  An operator is taken only behind an operand, and
an operand has to follow it, so there are enough operands for the operators; there
are too many if an operand directly follows another.  An evaluation counts them:
it leaves one text on the stack only if there is one operand more than operators.
-/
import LineScript.Proofs.FallibleSteps
import LineScript.Proofs.LexemeReading
import LineScript.Proofs.TreeEvaluation

namespace LineScript

section Release

variable {op : Operator} {stack kept : List Waiting}
  {released : List PostfixItem}

theorem exists_of_releaseTighter
    (hrelease : releaseTighter op stack = (released, kept)) :
    ∃ pending : List Operator, released = pending.map .operator ∧
      stack = pending.map .operator ++ kept ∧
      (∀ top ∈ pending, op.precedence ≤ top.precedence) ∧
      Blocks op.precedence kept := by
  fun_induction releaseTighter op stack generalizing released with
  | case1 top stack hlevel taken left htaken ih =>
      obtain ⟨rfl, rfl⟩ := Prod.mk.inj hrelease
      obtain ⟨pending, rfl, rfl, hpending, hblocks⟩ := ih htaken
      exact ⟨top :: pending, rfl, rfl,
        List.forall_mem_cons.mpr ⟨hlevel, hpending⟩, hblocks⟩
  | case2 top stack hlevel =>
      obtain ⟨rfl, rfl⟩ := Prod.mk.inj hrelease
      exact ⟨[], rfl, rfl, nofun, Nat.lt_of_not_le hlevel⟩
  | case3 stack hstack =>
      obtain ⟨rfl, rfl⟩ := Prod.mk.inj hrelease
      refine ⟨[], rfl, rfl, nofun, ?_⟩
      rcases stack with _ | ⟨_ | top, later⟩
      · trivial
      · trivial
      · exact absurd rfl (hstack top later)

theorem exists_of_releaseGroup
    (hrelease : releaseGroup stack = some (released, kept)) :
    ∃ pending : List Operator, released = pending.map .operator ∧
      stack = pending.map .operator ++ .opening :: kept := by
  fun_induction releaseGroup stack generalizing released with
  | case1 => contradiction
  | case2 stack =>
      obtain ⟨rfl, rfl⟩ := Prod.mk.inj (Option.some.inj hrelease)
      exact ⟨[], rfl, rfl⟩
  | case3 op stack ih =>
      obtain ⟨⟨taken, left⟩, htaken, hpair⟩ :=
        Option.map_eq_some_iff.mp hrelease
      obtain ⟨rfl, rfl⟩ := Prod.mk.inj hpair
      obtain ⟨pending, rfl, rfl⟩ := ih htaken
      exact ⟨op :: pending, rfl, rfl⟩

theorem exists_of_releaseAll (hrelease : releaseAll stack = .ok released) :
    ∃ pending : List Operator, released = pending.map .operator ∧
      stack = pending.map .operator := by
  fun_induction releaseAll stack generalizing released with
  | case1 =>
      obtain rfl := Except.ok.inj hrelease
      exact ⟨[], rfl, rfl⟩
  | case2 => contradiction
  | case3 op stack ih =>
      obtain ⟨taken, htaken, rfl⟩ := map_eq_ok_iff.mp hrelease
      obtain ⟨pending, rfl, rfl⟩ := ih htaken
      exact ⟨op :: pending, rfl, rfl⟩

end Release

/-- The lexemes that can be rearranged, and their postfix form: one rule for each
place where a lexeme is taken, with what the stack holds there. -/
inductive Arranges :
    Bool → List Waiting → List Lexeme → List PostfixItem → Prop
  | done (pending : List Operator) :
    Arranges false (pending.map .operator) [] (pending.map .operator)
  | opening {stack : List Waiting} {later : List Lexeme}
      {items : List PostfixItem} :
    Arranges true (.opening :: stack) later items →
      Arranges true stack (.opening :: later) items
  | closing {pending : List Operator} {kept : List Waiting}
      {later : List Lexeme} {items : List PostfixItem} :
    Arranges false kept later items →
      Arranges false (pending.map .operator ++ .opening :: kept)
        (.closing :: later) (pending.map .operator ++ items)
  | operator {op : Operator} {pending : List Operator} {kept : List Waiting}
      {later : List Lexeme} {items : List PostfixItem} :
    (∀ top ∈ pending, op.precedence ≤ top.precedence) →
      Blocks op.precedence kept →
      Arranges true (.operator op :: kept) later items →
      Arranges false (pending.map .operator ++ kept)
        (.operator op :: later) (pending.map .operator ++ items)
  | operand {expecting : Bool} {text : String} {stack : List Waiting}
      {later : List Lexeme} {items : List PostfixItem} :
    Arranges false stack later items →
      Arranges expecting stack (.operand text :: later)
        (.operand text :: items)

theorem arranges_of_arrange {expecting : Bool} {stack : List Waiting}
    {parts : List Lexeme} {items : List PostfixItem}
    (harrange : arrange expecting stack parts = .ok items) :
    Arranges expecting stack parts items := by
  induction parts generalizing expecting stack items with
  | nil =>
      rcases expecting with _ | _
      · obtain ⟨pending, rfl, rfl⟩ := exists_of_releaseAll harrange
        exact .done pending
      · contradiction
  | cons first later ih =>
      cases first with
      | opening =>
          rcases expecting with _ | _
          · contradiction
          · exact .opening (ih harrange)
      | closing =>
          rcases expecting with _ | _
          · simp only [arrange, Bool.false_eq_true, if_false] at harrange
            split at harrange
            · contradiction
            · next hrelease =>
              obtain ⟨rest, hrest, rfl⟩ := map_eq_ok_iff.mp harrange
              obtain ⟨pending, rfl, rfl⟩ := exists_of_releaseGroup hrelease
              exact .closing (ih hrest)
          · contradiction
      | operator op =>
          rcases expecting with _ | _
          · rcases hrelease : releaseTighter op stack with ⟨released, kept⟩
            rw [arrange_operator hrelease] at harrange
            obtain ⟨rest, hrest, rfl⟩ := map_eq_ok_iff.mp harrange
            obtain ⟨pending, rfl, rfl, hpending, hblocks⟩ :=
              exists_of_releaseTighter hrelease
            exact .operator hpending hblocks (ih hrest)
          · contradiction
      | operand text =>
          obtain ⟨rest, hrest, rfl⟩ := map_eq_ok_iff.mp harrange
          exact .operand (ih hrest)
      | danglingSign => contradiction

def Lexeme.operand? : Lexeme → Option String
  | operand text => some text
  | _ => none

theorem Lexeme.operand?_eq_some_iff {lexeme : Lexeme} {text : String} :
    lexeme.operand? = some text ↔ lexeme = .operand text := by
  cases lexeme <;> simp [operand?]

def Lexeme.operator? : Lexeme → Option Operator
  | operator op => some op
  | _ => none

def PostfixItem.operand? : PostfixItem → Option String
  | operand text => some text
  | operator _ => none

def PostfixItem.operator? : PostfixItem → Option Operator
  | operand _ => none
  | operator op => some op

def Waiting.operator? : Waiting → Option Operator
  | opening => none
  | operator op => some op

section Operators

variable (ops : List Operator)

theorem PostfixItem.operands_map_operator :
    (ops.map PostfixItem.operator).filterMap PostfixItem.operand? = [] := by
  simp only [List.filterMap_eq_nil_iff, List.forall_mem_map]
  exact fun op _ => rfl

theorem PostfixItem.operators_map_operator :
    (ops.map PostfixItem.operator).filterMap PostfixItem.operator? = ops := by
  rw [List.filterMap_map]
  exact List.filterMap_some

theorem Waiting.operators_map_operator :
    (ops.map Waiting.operator).filterMap Waiting.operator? = ops := by
  rw [List.filterMap_map]
  exact List.filterMap_some

end Operators

/-- Every operand of a postfix form is the text of one. -/
def OperandsFormed (items : List PostfixItem) : Prop :=
  ∀ text ∈ items.filterMap PostfixItem.operand?,
    ∃ operand : OperandText, operand.text = text

namespace Arranges

variable {expecting : Bool} {stack : List Waiting} {parts : List Lexeme}
  {items : List PostfixItem}

/-- The operands come out in their order. -/
theorem operands_eq (harranges : Arranges expecting stack parts items) :
    items.filterMap PostfixItem.operand? =
      parts.filterMap Lexeme.operand? := by
  induction harranges with
  | done pending => exact PostfixItem.operands_map_operator pending
  | opening _ ih => exact ih
  | closing _ ih | operator _ _ _ ih =>
      rw [List.filterMap_append, PostfixItem.operands_map_operator]
      exact ih
  | operand _ ih => exact congrArg (_ :: ·) ih

/-- Every operator comes out once, also those that wait on the stack. -/
theorem operators_perm (harranges : Arranges expecting stack parts items) :
    (items.filterMap PostfixItem.operator?).Perm
      (stack.filterMap Waiting.operator? ++
        parts.filterMap Lexeme.operator?) := by
  induction harranges with
  | done pending =>
      rw [PostfixItem.operators_map_operator, Waiting.operators_map_operator]
      exact .of_eq (List.append_nil pending).symm
  | opening _ ih => exact ih
  | closing _ ih =>
      rw [List.filterMap_append, List.filterMap_append, List.append_assoc,
        PostfixItem.operators_map_operator, Waiting.operators_map_operator]
      exact ih.append_left _
  | operator _ _ _ ih =>
      rw [List.filterMap_append, List.filterMap_append, List.append_assoc,
        PostfixItem.operators_map_operator, Waiting.operators_map_operator]
      exact (ih.trans List.perm_middle.symm).append_left _
  | operand _ ih => exact ih

/-- There are enough operands for the operators, with one more where an operand is
expected. -/
theorem operators_le (harranges : Arranges expecting stack parts items) :
    (parts.filterMap Lexeme.operator?).length + expecting.toNat ≤
      (parts.filterMap Lexeme.operand?).length := by
  induction harranges with
  | done pending => exact Nat.le_refl 0
  | opening _ ih | closing _ ih => exact ih
  | operator _ _ _ ih => exact ih
  | @operand expecting _ _ _ _ _ ih =>
      have hone : expecting.toNat ≤ 1 := Bool.toNat_le expecting
      exact Nat.add_le_add ih hone

theorem operandsFormed (harranges : Arranges expecting stack parts items)
    (hformed : ∀ lexeme ∈ parts, lexeme.IsFormed) : OperandsFormed items := by
  intro text htext
  rw [harranges.operands_eq] at htext
  obtain ⟨lexeme, hlexeme, hoperand⟩ := List.mem_filterMap.mp htext
  exact hformed lexeme hlexeme text (Lexeme.operand?_eq_some_iff.mp hoperand)

end Arranges

section Evaluation

variable {α : Type} [Operand α] {stack next : List String}
  {items : List PostfixItem}

theorem length_of_postfixStep_operand {operand : OperandText}
    (hstep : postfixStep α stack operand.text = .ok next) :
    next.length = stack.length + 1 := by
  rw [postfixStep, operand.ofToken?_text] at hstep
  obtain rfl := Except.ok.inj hstep
  rfl

theorem length_of_postfixStep_operator {op : Operator}
    (hstep : postfixStep α stack (String.singleton op.symbol) = .ok next) :
    next.length + 1 = stack.length := by
  rw [postfixStep, Operator.ofToken?_singleton] at hstep
  rcases stack with _ | ⟨right, _ | ⟨left, rest⟩⟩
  · contradiction
  · contradiction
  · obtain ⟨leftValue, _, hstep⟩ := bind_eq_ok_iff.mp hstep
    obtain ⟨rightValue, _, hstep⟩ := bind_eq_ok_iff.mp hstep
    obtain ⟨value, _, hstep⟩ := bind_eq_ok_iff.mp hstep
    obtain rfl := pure_eq_ok_iff.mp hstep
    rfl

/-- An operand makes the stack longer by one text and an operator makes it shorter
by one, so a run tells how many there were of each. -/
theorem length_of_foldlM (hformed : OperandsFormed items)
    (hrun : (items.map PostfixItem.text).foldlM (postfixStep α) stack =
      .ok next) :
    next.length + (items.filterMap PostfixItem.operator?).length =
      stack.length + (items.filterMap PostfixItem.operand?).length := by
  induction items generalizing stack with
  | nil =>
      obtain rfl := pure_eq_ok_iff.mp hrun
      rfl
  | cons item later ih =>
      rw [List.map_cons, List.foldlM_cons] at hrun
      obtain ⟨middle, hstep, hlater⟩ := bind_eq_ok_iff.mp hrun
      cases item with
      | operand text =>
          obtain ⟨⟨operand, rfl⟩, hothers⟩ := List.forall_mem_cons.mp hformed
          have hone := length_of_postfixStep_operand hstep
          have hrest := ih hothers hlater
          simp only [List.filterMap_cons, PostfixItem.operator?,
            PostfixItem.operand?, List.length_cons]
          omega
      | operator op =>
          have hone := length_of_postfixStep_operator hstep
          have hrest := ih hformed hlater
          simp only [List.filterMap_cons, PostfixItem.operator?,
            PostfixItem.operand?, List.length_cons]
          omega

theorem words_postfixText (hformed : OperandsFormed items) :
    words (postfixText items) = items.map PostfixItem.text := by
  apply words_intercalate
  intro token htoken
  obtain ⟨item, hitem, rfl⟩ := List.mem_map.mp htoken
  cases item with
  | operand text =>
      obtain ⟨operand, rfl⟩ :=
        hformed text (List.mem_filterMap.mpr ⟨_, hitem, rfl⟩)
      exact operand.isWord_text
  | operator op => exact op.isWord_symbol

/-- A postfix form that has a value has one operand more than operators. -/
theorem operands_of_evaluatePostfix {value : α}
    (hformed : OperandsFormed items)
    (hvalue : evaluatePostfix α (postfixText items) = .ok value) :
    (items.filterMap PostfixItem.operand?).length =
      (items.filterMap PostfixItem.operator?).length + 1 := by
  rw [evaluatePostfix, words_postfixText hformed] at hvalue
  obtain ⟨final, hrun, hfinal⟩ := bind_eq_ok_iff.mp hvalue
  have hlength := length_of_foldlM hformed hrun
  rcases final with _ | ⟨result, _ | _⟩
  · contradiction
  · simp only [List.length_cons, List.length_nil] at hlength
    omega
  · contradiction

end Evaluation

end LineScript
