/-
Tokens of a text and of its postfix form.  The rearrangement loses none and
invents none: the parentheses, which have to match, are all that is missing.
Every operator finds its two operands when the form is evaluated, so an operand
is missed only at the end, where too many of them are left.
-/
import LineScript.Proofs.ExpressionTokens
import LineScript.Proofs.PostfixOrder
import Mathlib.Data.List.Basic

namespace LineScript

/-- The parentheses of a text match, with `depth` of them opened in front of it.
-/
structure Closes (depth : Nat) (text : List Char) : Prop where
  total : text.count ')' = depth + text.count '('
  nested : ∀ front, front <+: text → front.count ')' ≤ depth + front.count '('

namespace Closes

variable {depth next : Nat} {c : Char} {front text : List Char}

theorem nil : Closes 0 [] where
  total := rfl
  nested front hfront := by
    rw [List.prefix_nil.mp hfront]
    exact Nat.le_refl 0

theorem cons (hstep : [c].count ')' + next = depth + [c].count '(')
    (htext : Closes next text) : Closes depth (c :: text) where
  total := by
    have htotal := htext.total
    rw [← List.singleton_append, List.count_append, List.count_append]
    omega
  nested front hfront := by
    rcases List.prefix_cons_iff.mp hfront with rfl | ⟨later, rfl, hlater⟩
    · exact Nat.zero_le _
    · have hnested := htext.nested later hlater
      rw [← List.singleton_append, List.count_append, List.count_append]
      omega

theorem opening (htext : Closes (depth + 1) text) :
    Closes depth ('(' :: text) :=
  htext.cons (Nat.zero_add _)

theorem closing (htext : Closes depth text) :
    Closes (depth + 1) (')' :: text) :=
  htext.cons (Nat.add_comm 1 depth)

theorem append (hfront : ∀ c ∈ front, c ≠ '(' ∧ c ≠ ')')
    (htext : Closes depth text) : Closes depth (front ++ text) := by
  induction front with
  | nil => exact htext
  | cons c later ih =>
      obtain ⟨⟨hopening, hclosing⟩, hlater⟩ := List.forall_mem_cons.mp hfront
      refine (ih hlater).cons ?_
      simp [hopening, hclosing]

end Closes

section Characters

theorem AllBlank.ne_parenthesis {text : List Char} (hblank : AllBlank text) :
    ∀ c ∈ text, c ≠ '(' ∧ c ≠ ')' := by
  intro c hc
  have hblank := hblank c hc
  constructor
  · rintro rfl
    exact absurd hblank (by decide)
  · rintro rfl
    exact absurd hblank (by decide)

theorem Operator.symbol_ne_parenthesis (op : Operator) :
    op.symbol ≠ '(' ∧ op.symbol ≠ ')' := by
  cases op <;> decide

theorem OperandText.ne_parenthesis (operand : OperandText) :
    ∀ c ∈ operand.text.toList, c ≠ '(' ∧ c ≠ ')' := by
  obtain ⟨run, _, hrun, hwritten⟩ := operand.written
  have hchars : ∀ c ∈ run, c ≠ '(' ∧ c ≠ ')' := by
    intro c hc
    obtain ⟨_, hopening, hclosing, _⟩ := isOperandChar_iff.mp (hrun c hc)
    exact ⟨hopening, hclosing⟩
  rcases hwritten with htext | htext
  · rw [htext]
    exact hchars
  · rw [htext]
    exact List.forall_mem_cons.mpr ⟨by decide, hchars⟩

theorem Lexeme.isBlank_of_mem_chars {lexeme : Lexeme}
    (hformed : lexeme.IsFormed) :
    ∀ c ∈ lexeme.chars, isBlank c = false := by
  cases lexeme with
  | opening | closing | danglingSign => simp [chars, Operator.symbol]; decide
  | operator op => cases op <;> simp [chars, Operator.symbol] <;> decide
  | operand text =>
      obtain ⟨operand, rfl⟩ := hformed text rfl
      exact operand.isWord_text.2

/-- The lexemes of a text are written with all its characters but the blanks. -/
theorem flatMap_chars_lexemes {expecting : Bool} {text : List Char} :
    (lexemes expecting text).flatMap Lexeme.chars =
      text.filter fun c => !isBlank c := by
  have hdropped {blanks : List Char} (hblanks : AllBlank blanks) :
      blanks.filter (fun c => !isBlank c) = [] := by
    apply List.filter_eq_nil_iff.mpr
    intro c hc
    simp [hblanks c hc]
  generalize hparts : lexemes expecting text = parts
  induction parts generalizing expecting text with
  | nil => exact (hdropped (allBlank_of_lexemes_eq_nil hparts)).symm
  | cons first rest ih =>
      obtain ⟨blanks, behind, hblanks, rfl, hrest, hformed⟩ :=
        exists_of_lexemes_eq_cons hparts
      have hkept : first.chars.filter (fun c => !isBlank c) = first.chars := by
        apply List.filter_eq_self.mpr
        intro c hc
        simp [first.isBlank_of_mem_chars hformed c hc]
      rw [List.flatMap_cons, List.filter_append, List.filter_append,
        hdropped hblanks, hkept, List.nil_append, ih hrest]

theorem postfixText_ne_parenthesis {items : List PostfixItem}
    (hformed : OperandsFormed items) :
    ∀ c ∈ (postfixText items).toList, c ≠ '(' ∧ c ≠ ')' := by
  intro c hc
  rw [postfixText, String.toList_intercalate] at hc
  rcases mem_of_mem_intercalate hc with rfl | ⟨_, htext, hmem⟩
  · decide
  · obtain ⟨_, htoken, rfl⟩ := List.mem_map.mp htext
    obtain ⟨item, hitem, rfl⟩ := List.mem_map.mp htoken
    cases item with
    | operand text =>
        obtain ⟨operand, rfl⟩ :=
          hformed text (List.mem_filterMap.mpr ⟨_, hitem, rfl⟩)
        exact operand.ne_parenthesis c hmem
    | operator op =>
        obtain rfl : c = op.symbol := by simpa [PostfixItem.text] using hmem
        exact op.symbol_ne_parenthesis

end Characters

/-- A text whose lexemes can be rearranged closes what was opened in front of
it. -/
theorem Arranges.closes {expecting reading : Bool} {stack : List Waiting}
    {parts : List Lexeme} {items : List PostfixItem} {text : List Char}
    (harranges : Arranges expecting stack parts items)
    (htext : lexemes reading text = parts) :
    Closes (stack.count .opening) text := by
  have hnone (pending : List Operator) :
      (pending.map Waiting.operator).count .opening = 0 :=
    List.count_eq_zero.mpr (by simp)
  induction harranges generalizing reading text with
  | done pending =>
      rw [hnone]
      have hblank := (allBlank_of_lexemes_eq_nil htext).ne_parenthesis
      simpa using Closes.nil.append hblank
  | opening _ ih =>
      obtain ⟨blanks, behind, hblanks, rfl, hrest, _⟩ :=
        exists_of_lexemes_eq_cons htext
      have hbehind := ih hrest
      rw [List.count_cons_self] at hbehind
      exact hbehind.opening.append hblanks.ne_parenthesis
  | closing _ ih =>
      obtain ⟨blanks, behind, hblanks, rfl, hrest, _⟩ :=
        exists_of_lexemes_eq_cons htext
      rw [List.count_append, hnone, List.count_cons_self, Nat.zero_add]
      exact (ih hrest).closing.append hblanks.ne_parenthesis
  | @operator op _ _ _ _ _ _ _ ih =>
      obtain ⟨blanks, behind, hblanks, rfl, hrest, _⟩ :=
        exists_of_lexemes_eq_cons htext
      have hsymbol : ∀ c ∈ (Lexeme.operator op).chars, c ≠ '(' ∧ c ≠ ')' :=
        List.forall_mem_singleton.mpr op.symbol_ne_parenthesis
      have hbehind := (ih hrest).append hsymbol
      rw [List.count_append, hnone, Nat.zero_add]
      exact hbehind.append hblanks.ne_parenthesis
  | operand _ ih =>
      obtain ⟨blanks, behind, hblanks, rfl, hrest, hformed⟩ :=
        exists_of_lexemes_eq_cons htext
      obtain ⟨operand, rfl⟩ := hformed _ rfl
      have hbehind := (ih hrest).append operand.ne_parenthesis
      exact hbehind.append hblanks.ne_parenthesis

/-- An evaluation that starts with a stack of this height finds two texts for
every operator. -/
def EnoughOperands : Nat → List PostfixItem → Prop
  | _, [] => True
  | height, .operand _ :: later => EnoughOperands (height + 1) later
  | height, .operator _ :: later =>
    2 ≤ height ∧ EnoughOperands (height - 1) later

theorem EnoughOperands.release {height : Nat} {pending : List Operator}
    {items : List PostfixItem} (hheight : pending.length < height)
    (hitems : EnoughOperands (height - pending.length) items) :
    EnoughOperands height (pending.map .operator ++ items) := by
  induction pending generalizing height with
  | nil => exact hitems
  | cons op later ih =>
      rw [List.length_cons] at hheight hitems
      refine ⟨by omega, ih (by omega) ?_⟩
      rwa [Nat.sub_sub, Nat.add_comm 1]

/-- The stack is never too low for the operators that wait: each of them has its
left side there, and where no operand is expected, the last one has its right
side. -/
theorem Arranges.enoughOperands {expecting : Bool} {stack : List Waiting}
    {parts : List Lexeme} {items : List PostfixItem} {height : Nat}
    (harranges : Arranges expecting stack parts items)
    (hheight : (stack.filterMap Waiting.operator?).length + (!expecting).toNat ≤
      height) :
    EnoughOperands height items := by
  induction harranges generalizing height with
  | done pending =>
      rw [Waiting.operators_map_operator] at hheight
      have hall : EnoughOperands height (pending.map .operator ++ []) :=
        .release hheight trivial
      rwa [List.append_nil] at hall
  | opening _ ih => exact ih hheight
  | closing _ ih | operator _ _ _ ih =>
      rw [List.filterMap_append, Waiting.operators_map_operator,
        List.length_append] at hheight
      simp only [List.filterMap_cons, Waiting.operator?, List.length_cons,
        Bool.not_false, Bool.not_true, Bool.toNat_true, Bool.toNat_false]
        at hheight ih
      exact .release (by omega) (ih (by omega))
  | @operand expecting _ _ _ _ _ ih =>
      have hone : (!false).toNat = 1 := rfl
      exact ih (by omega)

section Evaluation

variable {α : Type} [Operand α] {stack next : List String}
  {items : List PostfixItem}

theorem OperandsFormed.tail {item : PostfixItem}
    (hformed : OperandsFormed (item :: items)) : OperandsFormed items := by
  intro text htext
  obtain ⟨other, hother, hoperand⟩ := List.mem_filterMap.mp htext
  exact hformed text
    (List.mem_filterMap.mpr ⟨other, List.mem_cons_of_mem _ hother, hoperand⟩)

/-- What one step leaves is enough for the rest. -/
theorem EnoughOperands.step {item : PostfixItem}
    (hformed : OperandsFormed (item :: items))
    (henough : EnoughOperands stack.length (item :: items))
    (hstep : postfixStep α stack item.text = .ok next) :
    EnoughOperands next.length items := by
  cases item with
  | operand text =>
      obtain ⟨operand, rfl⟩ := hformed text (List.mem_cons_self)
      rw [length_of_postfixStep_operand hstep]
      exact henough
  | operator op =>
      have hone := length_of_postfixStep_operator hstep
      have hlower : next.length = stack.length - 1 := by omega
      rw [hlower]
      exact henough.2

theorem EnoughOperands.two_le {front back : List PostfixItem} {op : Operator}
    (hformed : OperandsFormed (front ++ .operator op :: back))
    (henough : EnoughOperands stack.length (front ++ .operator op :: back))
    (hrun : (front.map PostfixItem.text).foldlM (postfixStep α) stack =
      .ok next) :
    2 ≤ next.length := by
  induction front generalizing stack with
  | nil =>
      obtain rfl := pure_eq_ok_iff.mp hrun
      exact henough.1
  | cons item later ih =>
      rw [List.map_cons, List.foldlM_cons] at hrun
      obtain ⟨middle, hstep, hlater⟩ := bind_eq_ok_iff.mp hrun
      exact ih hformed.tail (henough.step hformed hstep) hlater

theorem readOperand_ne_missingOperand (text : String) :
    readOperand α text ≠ .error .missingOperand := by
  unfold readOperand
  split <;> simp

/-- With two operands on the stack, only the operation itself can miss one. -/
theorem exists_of_operator_missing {op : Operator} {left right : String}
    (hstep : postfixStep α (right :: left :: stack)
      (String.singleton op.symbol) = .error .missingOperand) :
    ∃ leftValue rightValue : α,
      Operand.apply op leftValue rightValue = .error .missingOperand := by
  rw [postfixStep, Operator.ofToken?_singleton] at hstep
  rcases bind_eq_error_iff.mp hstep with hread | ⟨leftValue, _, hstep⟩
  · exact absurd hread (readOperand_ne_missingOperand left)
  rcases bind_eq_error_iff.mp hstep with hread | ⟨rightValue, _, hstep⟩
  · exact absurd hread (readOperand_ne_missingOperand right)
  rcases bind_eq_error_iff.mp hstep with happly | ⟨value, _, hreturn⟩
  · exact ⟨leftValue, rightValue, happly⟩
  · contradiction

theorem EnoughOperands.exists_of_foldlM_missing (hformed : OperandsFormed items)
    (henough : EnoughOperands stack.length items)
    (hrun : (items.map PostfixItem.text).foldlM (postfixStep α) stack =
      .error .missingOperand) :
    ∃ (op : Operator) (left right : α),
      Operand.apply op left right = .error .missingOperand := by
  induction items generalizing stack with
  | nil => contradiction
  | cons item later ih =>
      rw [List.map_cons, List.foldlM_cons] at hrun
      rcases bind_eq_error_iff.mp hrun with hstep | ⟨middle, hstep, hlater⟩
      · cases item with
        | operand text =>
            obtain ⟨operand, rfl⟩ := hformed text (List.mem_cons_self)
            rw [postfixStep, PostfixItem.text, operand.ofToken?_text] at hstep
            contradiction
        | operator op =>
            have htwo := henough.1
            obtain _ | ⟨right, _ | ⟨left, rest⟩⟩ := stack
            · contradiction
            · contradiction
            · exact ⟨op, exists_of_operator_missing hstep⟩
      · exact ih hformed.tail (henough.step hformed hstep) hlater

/-- An evaluation that misses an operand has too many of them at its end, unless
the operation itself misses one. -/
theorem Arranges.missing_operand {parts : List Lexeme}
    (harranges : Arranges true [] parts items) (hformed : OperandsFormed items)
    (hmissing : evaluatePostfix α (postfixText items) =
      .error .missingOperand) :
    (∃ (op : Operator) (left right : α),
      Operand.apply op left right = .error .missingOperand) ∨
    (parts.filterMap Lexeme.operator?).length + 1 <
      (parts.filterMap Lexeme.operand?).length := by
  rw [evaluatePostfix, words_postfixText hformed] at hmissing
  rcases bind_eq_error_iff.mp hmissing with hrun | ⟨final, hrun, hfinal⟩
  · have henough : EnoughOperands ([] : List String).length items :=
      harranges.enoughOperands (Nat.le_refl 0)
    exact Or.inl (henough.exists_of_foldlM_missing hformed hrun)
  · have hlength := length_of_foldlM hformed hrun
    have hleast := harranges.operators_le
    rw [harranges.operands_eq, harranges.operators_perm.length_eq] at hlength
    simp only [List.filterMap_nil, List.nil_append, List.length_nil,
      Bool.toNat_true] at hlength hleast
    rcases final with _ | ⟨result, _ | ⟨other, rest⟩⟩
    · simp only [List.length_nil] at hlength
      omega
    · exact absurd hfinal (readOperand_ne_missingOperand result)
    · simp only [List.length_cons] at hlength
      exact Or.inr (by omega)

end Evaluation

theorem applyInteger_ne_missingOperand (op : Operator) (left right : Int64) :
    applyInteger op left right ≠ .error .missingOperand := by
  unfold applyInteger
  split
  · simp
  · split <;> simp

theorem applyDouble_ne_missingOperand (op : Operator) (left right : Float) :
    applyDouble op left right ≠ .error .missingOperand := by
  cases op with
  | div =>
      rw [applyDouble]
      split <;> simp
  | add | sub | mul | mod | pow => simp [applyDouble]

/-- A text and its postfix form have the same operands and operators.  The tokens
of the text are all of it but the blanks, the form's words are its items, and
between both stands an order of the numbered tokens. -/
structure KeepsTokens (text : String) (tokens : List Lexeme)
    (items : List PostfixItem) : Prop where
  balanced : Closes 0 text.toList
  noParentheses : ∀ c ∈ (postfixText items).toList, c ≠ '(' ∧ c ≠ ')'
  wholeText : tokens.flatMap Lexeme.chars =
    text.toList.filter fun c => !isBlank c
  wordsOfForm : words (postfixText items) = items.map PostfixItem.text
  order : ∃ order, order.map PlacedItem.item = items ∧
    PostfixOrder (placedItems 0 tokens) order

/-- An evaluation of the postfix form of these tokens never meets an operator with
less than two texts on the stack.  If it misses an operand nevertheless, there are
too many of them, or the operation of the number type misses one. -/
structure FindsOperands (α : Type) [Operand α] (tokens : List Lexeme)
    (items : List PostfixItem) : Prop where
  twoOnStack : ∀ front token back stack,
    words (postfixText items) = front ++ token :: back →
    (Operator.ofToken? token).isSome = true →
    front.foldlM (postfixStep α) [] = .ok stack → 2 ≤ stack.length
  missing : evaluatePostfix α (postfixText items) = .error .missingOperand →
    (∃ (op : Operator) (left right : α),
      Operand.apply op left right = .error .missingOperand) ∨
    (tokens.filterMap Lexeme.operator?).length + 1 <
      (tokens.filterMap Lexeme.operand?).length

/-- No minus sign is left over where lexemes can be rearranged. -/
theorem Arranges.danglingSign_notMem {expecting : Bool}
    {stack : List Waiting} {parts : List Lexeme} {items : List PostfixItem}
    (harranges : Arranges expecting stack parts items) :
    .danglingSign ∉ parts := by
  induction harranges with
  | done => exact List.not_mem_nil
  | opening _ ih | closing _ ih | operator _ _ _ ih | operand _ ih =>
      simpa using ih

section Main

variable {text : String} {items : List PostfixItem}

theorem keepsTokens_of_toPostfix (hitems : toPostfix text = .ok items) :
    KeepsTokens text (lexemes true text.toList) items := by
  have harranges := arranges_of_arrange hitems
  have hformed := harranges.operandsFormed isFormed_of_mem_lexemes
  exact {
    balanced := harranges.closes rfl
    noParentheses := postfixText_ne_parenthesis hformed
    wholeText := flatMap_chars_lexemes
    wordsOfForm := words_postfixText hformed
    order := harranges.exists_postfixOrder }

theorem findsOperands_of_toPostfix (α : Type) [Operand α]
    (hitems : toPostfix text = .ok items) :
    FindsOperands α (lexemes true text.toList) items := by
  have harranges := arranges_of_arrange hitems
  have hformed := harranges.operandsFormed isFormed_of_mem_lexemes
  refine ⟨?_, harranges.missing_operand hformed⟩
  intro front token back stack hwords htoken hrun
  rw [words_postfixText hformed] at hwords
  obtain ⟨before, rest, rfl, rfl, hrest⟩ := List.map_eq_append_iff.mp hwords
  obtain ⟨item, behind, rfl, rfl, _⟩ := List.map_eq_cons_iff.mp hrest
  cases item with
  | operand text =>
      obtain ⟨operand, rfl⟩ := hformed text
        (List.mem_filterMap.mpr ⟨.operand text, by simp, rfl⟩)
      rw [PostfixItem.text, operand.ofToken?_text] at htoken
      contradiction
  | operator op =>
      have henough : EnoughOperands ([] : List String).length
          (before ++ .operator op :: behind) :=
        harranges.enoughOperands (Nat.le_refl 0)
      exact henough.two_le hformed hrun

/-- A text with a postfix form has tokens, in one way only.  The form has all their
operands and operators and nothing else, and an evaluation misses an operand only
if there are too many. -/
theorem toPostfix_keeps_tokens (hitems : toPostfix text = .ok items) :
    ∃ tokens,
      (∀ others, HasTokens true text.toList others ↔ others = tokens) ∧
      KeepsTokens text tokens items ∧
      (∀ (α : Type) [Operand α], FindsOperands α tokens items) ∧
      (evaluatePostfix Int64 (postfixText items) = .error .missingOperand ∨
          evaluatePostfix Float (postfixText items) = .error .missingOperand →
        (tokens.filterMap Lexeme.operator?).length + 1 <
          (tokens.filterMap Lexeme.operand?).length) := by
  have hsigns := (arranges_of_arrange hitems).danglingSign_notMem
  refine ⟨lexemes true text.toList,
    fun others => hasTokens_iff_eq_lexemes hsigns,
    keepsTokens_of_toPostfix hitems,
    fun α _ => findsOperands_of_toPostfix α hitems, ?_⟩
  rintro (hmissing | hmissing)
  · refine ((findsOperands_of_toPostfix Int64 hitems).missing
      hmissing).resolve_left ?_
    rintro ⟨op, left, right, happly⟩
    exact applyInteger_ne_missingOperand op left right happly
  · refine ((findsOperands_of_toPostfix Float hitems).missing
      hmissing).resolve_left ?_
    rintro ⟨op, left, right, happly⟩
    exact applyDouble_ne_missingOperand op left right happly

/-- The tokens of `-12 * (30+345)67`. -/
def juxtaposedTokens : List Lexeme :=
  [.operand "-12", .operator .mul, .opening, .operand "30", .operator .add,
    .operand "345", .closing, .operand "67"]

def juxtaposedItems : List PostfixItem :=
  [.operand "-12", .operand "30", .operand "345", .operator .add,
    .operand "67", .operator .mul]

/-- An operand behind a group has no operator in front of it.  All tokens are in
the postfix form, and an operand is missed only at its end. -/
theorem juxtaposed_keeps_tokens :
    toPostfix "-12 * (30+345)67" = .ok juxtaposedItems ∧
    HasTokens true "-12 * (30+345)67".toList juxtaposedTokens ∧
    KeepsTokens "-12 * (30+345)67" juxtaposedTokens juxtaposedItems ∧
    postfixText juxtaposedItems = "-12 30 345 + 67 *" ∧
    evaluatePostfix Int64 "-12 30 345 + 67 *" = .error .missingOperand ∧
    (juxtaposedTokens.filterMap Lexeme.operator?).length + 1 <
      (juxtaposedTokens.filterMap Lexeme.operand?).length := by
  have hitems : toPostfix "-12 * (30+345)67" = .ok juxtaposedItems := by
    decide +kernel
  have hform : postfixText juxtaposedItems = "-12 30 345 + 67 *" := by
    decide +kernel
  have hmissing : evaluatePostfix Int64 "-12 30 345 + 67 *" =
      .error .missingOperand := by
    decide +kernel
  have hlexemes : lexemes true "-12 * (30+345)67".toList = juxtaposedTokens := by
    decide +kernel
  have hread : HasTokens true "-12 * (30+345)67".toList juxtaposedTokens := by
    rw [← hlexemes]
    exact hasTokens_lexemes (hlexemes ▸ by decide)
  obtain ⟨tokens, honly, hkeeps, -, hcount⟩ := toPostfix_keeps_tokens hitems
  obtain rfl := (honly _).mp hread
  rw [hform] at hcount
  exact ⟨hitems, hread, hkeeps, hform, hmissing, hcount (Or.inl hmissing)⟩

end Main

end LineScript
