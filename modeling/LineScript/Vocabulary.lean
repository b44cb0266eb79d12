/-
The reserved words: statement keywords, punctuation, array sources, relational
and logical operators, and format words.
-/
import LineScript.Statement

namespace LineScript

namespace Word

def blockOpen : String := "\x7b"
def blockClose : String := "\x7d"
def assign : String := "="
def parameterSeparator : String := ":"
def arrayOpen : String := "["
def arrayClose : String := "]"

def arrayAt : String := "$array_at"
def arrayPop : String := "$array_pop"
def arrayLength : String := "$array_len"

/-- The name of the constant array that holds the external arguments. -/
def arguments : String := "$ARGS"

def conjunction : String := "and"
def disjunction : String := "or"

/-- The only text that counts as true. -/
def truth : String := "true"
def falsity : String := "false"

end Word

/-- The keywords with the kinds of the statements they start. -/
def keywords : List (String × StatementKind) :=
  [("var", .declare),
    ("var[]", .arrayDeclare),
    ("$array_append", .arrayAppend),
    ("$array_set", .arraySet),
    ("$array_pop", .arrayPop),
    ("const", .constant),
    ("print", .print),
    ("println", .printLn),
    ("readchar", .readChar),
    ("readint", .readInt),
    ("readfloat", .readFloat),
    ("readstr", .readStr),
    ("readln", .readLn),
    ("if", .branch),
    ("else", .otherwise),
    ("while", .loop),
    ("\x7d", .blockClose),
    ("\x7b", .blockOpen),
    ("function", .define),
    ("call", .call),
    ("return", .leave)]

/-- The kind of the statements that a token starts, if it is a keyword. -/
def keywordKind? (token : String) : Option StatementKind :=
  keywords.lookup token

def isKeyword (token : String) : Bool :=
  (keywordKind? token).isSome

/-- Words that take a value out of an array where an operand may stand. -/
def isArraySource (token : String) : Bool :=
  token = Word.arrayAt || token = Word.arrayPop || token = Word.arrayLength

def isConnective (token : String) : Bool :=
  token = Word.conjunction || token = Word.disjunction

/-- The character that a format word prints. -/
def formatCharacter? (token : String) : Option Char :=
  if token = "nl" then some '\n'
  else if token = "tab" then some '\t'
  else if token = "space" then some ' '
  else none

end LineScript
