/-
The shape of a statement line.  The leading tokens decide the kind of a line;
the kind decides how many tokens it has, which marks stand where, and which of
its tokens fill the operand slots.
-/
import LineScript.ParseError
import LineScript.Vocabulary

namespace LineScript

/-- The kind of a line: its first token is a keyword, or its second token is
the assignment mark. -/
def classify : List String → Except ParseCause StatementKind
  | [] => .error (.unknownStatement "")
  | first :: rest =>
    match keywordKind? first with
    | some kind => .ok kind
    | none =>
      match rest with
      | [] => .error (.unknownStatement first)
      | second :: _ =>
        if second = Word.assign then .ok .assign
        else .error (.missingAssign (some second))

/-- The last token of a line opens a body. -/
def endsWithBlockOpen (tokens : List String) : Bool :=
  tokens.getLast? = some Word.blockOpen

/-- A body follows every block line, and a call line that ends with the block
mark. -/
def opensBody (kind : StatementKind) (tokens : List String) : Bool :=
  kind.isBlock || (kind = .call && endsWithBlockOpen tokens)

def checkTokenCount (kind : StatementKind) (tokens : List String) :
    Except ParseCause Unit :=
  match kind.tokenRange? with
  | none => .ok ()
  | some (least, most) =>
    if least ≤ tokens.length ∧ tokens.length ≤ most then .ok ()
    else .error (.tokenCount kind tokens.length least most)

def expectAssign (tokens : List String) : Except ParseCause Unit :=
  if tokens[2]? = some Word.assign then .ok ()
  else .error (.missingAssign tokens[2]?)

def expectParameterSeparator (tokens : List String) :
    Except ParseCause Unit :=
  if tokens[2]? = some Word.parameterSeparator then .ok ()
  else .error (.missingParameterSeparator tokens[2]?)

def expectBlockOpen (kind : StatementKind) (tokens : List String) :
    Except ParseCause Unit :=
  if endsWithBlockOpen tokens then .ok ()
  else .error (.missingBlockOpen kind)

/-- The first token that is equal to an earlier one. -/
def firstRepeated? (seen : List String) : List String → Option String
  | [] => none
  | token :: later =>
    if token ∈ seen then some token else firstRepeated? (token :: seen) later

/-- The operands on the right of an array declaration: an array source with
its own operands, or the elements between brackets. -/
def arrayOperands : List String → Except ParseCause Expression
  | [] => .error .malformedArrayLiteral
  | source :: rest =>
    if source = Word.arrayPop ∧ rest.length = 1 then
      .ok (.ofTokens (source :: rest))
    else if source = Word.arrayAt ∧ rest.length = 2 then
      .ok (.ofTokens (source :: rest))
    else if source = Word.arrayOpen ∧
        rest.getLast? = some Word.arrayClose then
      .ok (.ofTokens rest.dropLast)
    else
      .error .malformedArrayLiteral

/-- The arguments of a call: at most three, in front of the block mark if the
line ends with one. -/
def callOperands (tokens : List String) : Except ParseCause Expression :=
  let opens := endsWithBlockOpen tokens
  let used := if opens then tokens.dropLast else tokens
  if 2 ≤ used.length ∧ used.length ≤ 5 then .ok (.ofTokens (used.drop 2))
  else .error (.tokenCount .call tokens.length 2 (if opens then 6 else 5))

/-- The parameters of a definition, which are pairwise distinct. -/
def parameterOperands (tokens : List String) :
    Except ParseCause Expression :=
  let parameters := (tokens.drop 3).dropLast
  match firstRepeated? [] parameters with
  | some name => .error (.duplicateParameter name)
  | none => .ok (.ofTokens parameters)

/-- The operand slots of a line of the given kind, or what is wrong with the
line.  The number of tokens is looked at first. -/
def operandSlots (kind : StatementKind) (tokens : List String) :
    Except ParseCause Expression := do
  checkTokenCount kind tokens
  match kind with
  | .assign => .ok (.ofTokens (tokens.drop 2))
  | .declare | .constant =>
    expectAssign tokens
    .ok (.ofTokens (tokens.drop 3))
  | .arrayDeclare =>
    expectAssign tokens
    arrayOperands (tokens.drop 3)
  | .branch | .loop | .otherwise =>
    expectBlockOpen kind tokens
    .ok (.ofTokens (tokens.drop 1).dropLast)
  | .define =>
    expectParameterSeparator tokens
    expectBlockOpen kind tokens
    parameterOperands tokens
  | .call => callOperands tokens
  | .arrayAppend | .arraySet | .arrayPop | .print | .printLn | .readChar
  | .readInt | .readFloat | .readStr | .readLn =>
    .ok (.ofTokens (tokens.drop 1))
  | .leave => .ok {}
  | .blockOpen | .blockClose =>
    .error (.unexpectedBlockMarker (tokens.headD ""))
  | .unknown => .error (.unknownStatement (tokens.headD ""))

end LineScript
