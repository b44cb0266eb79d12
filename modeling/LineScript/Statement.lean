/-
Statements and programs.  A statement is one source line, classified by kind,
with its operands in three slots and the statements of its body, if it has one.
-/
namespace LineScript

/-- What a statement does.  `blockOpen`, `blockClose` and `unknown` are not
statements of a program text; reaching one stops the program. -/
inductive StatementKind
  | readChar | readInt | readFloat | readStr | readLn
  | print | printLn
  | declare | constant | assign
  | branch | otherwise | loop
  | arrayDeclare | arrayAppend | arraySet | arrayPop
  | define | call | leave
  | blockOpen | blockClose | unknown
  deriving DecidableEq, Repr

namespace StatementKind

/-- The name of a kind in messages. -/
def label : StatementKind → String
  | readChar => "ReadChar"
  | readInt => "ReadInt"
  | readFloat => "ReadFloat"
  | readStr => "ReadStr"
  | readLn => "ReadLn"
  | print => "Print"
  | printLn => "PrintLn"
  | declare => "Init"
  | constant => "Const"
  | assign => "Assign"
  | branch => "If"
  | otherwise => "Else"
  | loop => "While"
  | arrayDeclare => "ArrayInit"
  | arrayAppend => "ArrayAppend"
  | arraySet => "ArraySet"
  | arrayPop => "ArrayPop"
  | define => "DefFunc"
  | call => "CallFunc"
  | leave => "Return"
  | blockOpen => "BlockOpen"
  | blockClose => "Bracket"
  | unknown => "None"

/-- Kinds whose line always opens a body. -/
def isBlock : StatementKind → Bool
  | branch | otherwise | loop | define => true
  | _ => false

def isRead : StatementKind → Bool
  | readChar | readInt | readFloat | readStr | readLn => true
  | _ => false

/-- The least and the greatest number of tokens on a line of this kind. -/
def tokenRange? : StatementKind → Option (Nat × Nat)
  | declare | constant => some (4, 6)
  | assign => some (3, 5)
  | arrayDeclare => some (5, 8)
  | arrayAppend => some (3, 3)
  | arraySet => some (4, 4)
  | arrayPop => some (2, 3)
  | print | printLn => some (2, 4)
  | readChar | readInt | readFloat | readStr | readLn => some (2, 4)
  | branch | loop => some (3, 5)
  | otherwise => some (2, 5)
  | define => some (4, 7)
  | call => some (2, 6)
  | leave => some (1, 1)
  | blockOpen | blockClose | unknown => none

end StatementKind

/-- The action that carries out a statement. -/
inductive Handler
  | declare | arrayDeclare | arrayAppend | arraySet | arrayPop | assign
  | print | read | block | call | define | leave
  deriving DecidableEq, Repr

/-- The handler of a kind.  Kinds without one stop the program. -/
def StatementKind.handler? : StatementKind → Option Handler
  | declare | constant => some .declare
  | arrayDeclare => some .arrayDeclare
  | arrayAppend => some .arrayAppend
  | arraySet => some .arraySet
  | arrayPop => some .arrayPop
  | assign => some .assign
  | print | printLn => some .print
  | readChar | readInt | readFloat | readStr | readLn => some .read
  | branch | otherwise | loop => some .block
  | call => some .call
  | define => some .define
  | leave => some .leave
  | blockOpen | blockClose | unknown => none

/-- The operand window of a statement.  An empty slot holds no token.  The
slots hold operands and operator of an assignment, the condition of a block,
or the parameter names of a definition. -/
structure Expression where
  left : String := ""
  middle : String := ""
  right : String := ""
  deriving DecidableEq, Repr

namespace Expression

/-- Fills the slots with the first three tokens. -/
def ofTokens : List String → Expression
  | [] => {}
  | [left] => { left }
  | [left, middle] => { left, middle }
  | left :: middle :: right :: _ => { left, middle, right }

def slots (expression : Expression) : List String :=
  [expression.left, expression.middle, expression.right]

/-- The tokens in the slots that are not empty, in slot order. -/
def operands (expression : Expression) : List String :=
  expression.slots.filter (· ≠ "")

def isEmpty (expression : Expression) : Bool :=
  expression.operands.isEmpty

/-- The slots fill up from the left. -/
theorem slots_ofTokens {tokens : List String} (hlength : tokens.length ≤ 3) :
    (ofTokens tokens).slots =
      tokens ++ List.replicate (3 - tokens.length) "" := by
  match tokens with
  | [] | [left] | [left, middle] | [left, middle, right] => rfl
  | _ :: _ :: _ :: _ :: _ =>
      simp only [List.length_cons] at hlength
      omega

theorem operands_ofTokens {tokens : List String}
    (hlength : tokens.length ≤ 3) (htokens : "" ∉ tokens) :
    (ofTokens tokens).operands = tokens := by
  have hfilled : ∀ token ∈ tokens, token ≠ "" := fun _ hmem =>
    ne_of_mem_of_not_mem hmem htokens
  simpa [operands, slots_ofTokens hlength] using hfilled

end Expression

/-- One statement.  `line` holds the tokens of its source line; `second` is
reserved for an alternative body and stays empty in a parsed program. -/
structure Statement where
  kind : StatementKind
  line : List String
  lineNo : Nat
  expression : Expression := {}
  body : List Statement := []
  second : List Statement := []

instance : Inhabited Statement := ⟨{ kind := .unknown, line := [], lineNo := 0 }⟩

namespace Statement

/-- The name that a statement declares, changes or calls. -/
def target? (statement : Statement) : Option String :=
  match statement.kind with
  | .declare | .constant | .arrayDeclare | .arrayAppend | .arraySet
  | .arrayPop | .define | .call => statement.line[1]?
  | .assign => statement.line.head?
  | _ => none

def operands (statement : Statement) : List String :=
  statement.expression.operands

/-- The source line of a statement with single spaces between its tokens. -/
def toSource (statement : Statement) : String :=
  " ".intercalate statement.line

end Statement

/-- The number of external arguments that a program can receive. -/
def argumentSlots : Nat := 10

/-- The external arguments of a program; unused places are empty. -/
abbrev Arguments := Vector String argumentSlots

/-- Keeps the first arguments and fills the other places with empty text. -/
def Arguments.ofList (arguments : List String) : Arguments :=
  Vector.ofFn fun place => arguments[place.val]?.getD ""

/-- A list of statements with the arguments it is run on. -/
structure Program where
  statements : List Statement
  arguments : Arguments

end LineScript
