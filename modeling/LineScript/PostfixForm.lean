/-
The postfix form of an expression text.  The text is cut into lexemes, where a
minus sign in front of an operand belongs to the operand; the lexemes are then
rearranged with a stack of waiting operators, so that every operator stands
behind its two operands.
-/
import LineScript.Operator
import LineScript.Words

namespace LineScript

/-- The parts of an expression text.  A dangling sign is a minus sign in the
place of an operand with no operand glued to it. -/
inductive Lexeme
  | opening
  | closing
  | operator (op : Operator)
  | operand (text : String)
  | danglingSign
  deriving DecidableEq, Repr

/-- Operands are made of anything but operators, parentheses and blanks. -/
def isOperandChar (c : Char) : Bool :=
  !(isBlank c || c == '(' || c == ')' || (Operator.ofChar? c).isSome)

theorem length_dropWhile_le (test : Char → Bool) (text : List Char) :
    (text.dropWhile test).length ≤ text.length :=
  (List.dropWhile_sublist test).length_le

/-- Cuts a text into lexemes.  `expecting` tells that an operand comes next,
and thereby what a minus sign means. -/
def lexemes (expecting : Bool) (text : List Char) : List Lexeme :=
  match text with
  | [] => []
  | c :: later =>
    let run := later.takeWhile isOperandChar
    let behind := later.dropWhile isOperandChar
    have := length_dropWhile_le isOperandChar later
    if isBlank c then lexemes expecting later
    else if c = '(' then .opening :: lexemes true later
    else if c = ')' then .closing :: lexemes false later
    else
      match Operator.ofChar? c with
      | none => .operand (String.ofList (c :: run)) :: lexemes false behind
      | some op =>
        if op = .sub ∧ expecting then
          if run.isEmpty then .danglingSign :: lexemes false later
          else .operand (String.ofList (c :: run)) :: lexemes false behind
        else
          .operator op :: lexemes true later
termination_by text.length
decreasing_by all_goals simp only [List.length_cons]; omega

/-- The parts of a postfix form. -/
inductive PostfixItem
  | operand (text : String)
  | operator (op : Operator)
  deriving DecidableEq, Repr

def PostfixItem.text : PostfixItem → String
  | operand text => text
  | operator op => String.singleton op.symbol

/-- What waits for its place in the postfix form. -/
inductive Waiting
  | opening
  | operator (op : Operator)
  deriving DecidableEq, Repr

/-- Takes the operators that bind at least as tightly as `op` off the stack, as
far as the innermost open parenthesis. -/
def releaseTighter (op : Operator) :
    List Waiting → List PostfixItem × List Waiting
  | .operator top :: stack =>
    if op.precedence ≤ top.precedence then
      let (released, kept) := releaseTighter op stack
      (.operator top :: released, kept)
    else
      ([], .operator top :: stack)
  | stack => ([], stack)

/-- Takes the operators of the innermost open parenthesis off the stack, and
the parenthesis itself. -/
def releaseGroup : List Waiting → Option (List PostfixItem × List Waiting)
  | [] => none
  | .opening :: stack => some ([], stack)
  | .operator op :: stack =>
    (releaseGroup stack).map fun (released, kept) =>
      (.operator op :: released, kept)

/-- Takes everything off the stack; no parenthesis may be left open. -/
def releaseAll : List Waiting → Except CalculationError (List PostfixItem)
  | [] => .ok []
  | .opening :: _ => .error .unbalancedParentheses
  | .operator op :: stack => (releaseAll stack).map (.operator op :: ·)

/-- Rearranges lexemes into postfix form.  An operand may follow an operand
directly; such a form is refused when it is evaluated. -/
def arrange (expecting : Bool) (stack : List Waiting) :
    List Lexeme → Except CalculationError (List PostfixItem)
  | [] => if expecting then .error .missingOperand else releaseAll stack
  | .opening :: later =>
    if expecting then arrange true (.opening :: stack) later
    else .error (.invalidOperator "(")
  | .closing :: later =>
    if expecting then .error .missingOperand
    else
      match releaseGroup stack with
      | none => .error .unbalancedParentheses
      | some (released, kept) => (arrange false kept later).map (released ++ ·)
  | .operator op :: later =>
    if expecting then .error .missingOperand
    else
      let (released, kept) := releaseTighter op stack
      (arrange true (.operator op :: kept) later).map (released ++ ·)
  | .operand text :: later =>
    (arrange false stack later).map (.operand text :: ·)
  | .danglingSign :: _ => .error .missingOperand

/-- The postfix form of an expression text. -/
def toPostfix (text : String) : Except CalculationError (List PostfixItem) :=
  arrange true [] (lexemes true text.toList)

/-- A postfix form as text, with single spaces between its parts. -/
def postfixText (items : List PostfixItem) : String :=
  " ".intercalate (items.map PostfixItem.text)

end LineScript
