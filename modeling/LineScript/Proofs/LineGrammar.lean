/-
The grammar of a line.  A line is accepted exactly when it has one of the shapes
that are listed here; the shape tells the kind of its statement and which of its
tokens are operands.  The operands fill the slots from the left, so every token of
an accepted line is an operand or has its fixed place in the shape.
-/
import LineScript.StatementShape
import LineScript.Proofs.FallibleSteps

namespace LineScript

/-- The number of operands is in a range. -/
def HasCount (least most : Nat) (operands : List String) : Prop :=
  least ≤ operands.length ∧ operands.length ≤ most

/-- The keywords that only operands follow, with the least and the greatest number
of these. -/
def commands : List (String × StatementKind × Nat × Nat) :=
  [("$array_append", .arrayAppend, 2, 2),
    ("$array_set", .arraySet, 3, 3),
    ("$array_pop", .arrayPop, 1, 2),
    ("print", .print, 1, 3),
    ("println", .printLn, 1, 3),
    ("readchar", .readChar, 1, 3),
    ("readint", .readInt, 1, 3),
    ("readfloat", .readFloat, 1, 3),
    ("readstr", .readStr, 1, 3),
    ("readln", .readLn, 1, 3)]

/-- The keywords of blocks with a condition, with the least number of its
tokens. -/
def guards : List (String × StatementKind × Nat) :=
  [("if", .branch, 1), ("while", .loop, 1), ("else", .otherwise, 0)]

/-- The shapes of a line, each with the kind of its statement and its operands.  A
block mark at the end of a call always opens a body. -/
inductive LineShape : StatementKind → List String → List String → Prop
  | declaration {name : String} {operands : List String} :
    HasCount 1 3 operands →
      LineShape .declare ("var" :: name :: Word.assign :: operands) operands
  | constant {name : String} {operands : List String} :
    HasCount 1 3 operands →
      LineShape .constant ("const" :: name :: Word.assign :: operands) operands
  | assignment {name : String} {operands : List String} :
    isKeyword name = false → HasCount 1 3 operands →
      LineShape .assign (name :: Word.assign :: operands) operands
  | elements {name : String} {operands : List String} :
    HasCount 0 3 operands →
      LineShape .arrayDeclare
        ("var[]" :: name :: Word.assign :: Word.arrayOpen ::
          (operands ++ [Word.arrayClose])) operands
  | lastOf {name source : String} :
    LineShape .arrayDeclare
      ["var[]", name, Word.assign, Word.arrayPop, source]
      [Word.arrayPop, source]
  | elementOf {name source index : String} :
    LineShape .arrayDeclare
      ["var[]", name, Word.assign, Word.arrayAt, source, index]
      [Word.arrayAt, source, index]
  | command {keyword : String} {kind : StatementKind} {least most : Nat}
      {operands : List String} :
    (keyword, kind, least, most) ∈ commands → HasCount least most operands →
      LineShape kind (keyword :: operands) operands
  | guarded {keyword : String} {kind : StatementKind} {least : Nat}
      {operands : List String} :
    (keyword, kind, least) ∈ guards → HasCount least 3 operands →
      LineShape kind (keyword :: (operands ++ [Word.blockOpen])) operands
  | definition {name : String} {parameters : List String} :
    HasCount 0 3 parameters → parameters.Nodup →
      LineShape .define
        ("function" :: name :: Word.parameterSeparator ::
          (parameters ++ [Word.blockOpen])) parameters
  | call {name : String} {operands : List String} :
    HasCount 0 3 operands →
      (name :: operands).getLast? ≠ some Word.blockOpen →
      LineShape .call ("call" :: name :: operands) operands
  | callWithBody {name : String} {operands : List String} :
    HasCount 0 3 operands →
      LineShape .call ("call" :: name :: (operands ++ [Word.blockOpen]))
        operands
  | leave : LineShape .leave ["return"] []

section Checks

variable {kind : StatementKind} {tokens : List String} {expression : Expression}

theorem checkTokenCount_eq_ok_iff {least most : Nat}
    (hrange : kind.tokenRange? = some (least, most)) {done : Unit} :
    checkTokenCount kind tokens = .ok done ↔ HasCount least most tokens := by
  simp only [checkTokenCount, hrange, HasCount]
  split
  · next hcount => simp [hcount]
  · next hcount => simp [hcount]

theorem expectAssign_eq_ok_iff {done : Unit} :
    expectAssign tokens = .ok done ↔ tokens[2]? = some Word.assign := by
  simp [expectAssign]

theorem expectParameterSeparator_eq_ok_iff {done : Unit} :
    expectParameterSeparator tokens = .ok done ↔
      tokens[2]? = some Word.parameterSeparator := by
  simp [expectParameterSeparator]

theorem expectBlockOpen_eq_ok_iff {done : Unit} :
    expectBlockOpen kind tokens = .ok done ↔
      tokens.getLast? = some Word.blockOpen := by
  simp [expectBlockOpen, endsWithBlockOpen]

theorem firstRepeated?_eq_none_iff {seen tokens : List String} :
    firstRepeated? seen tokens = none ↔
      tokens.Nodup ∧ ∀ token ∈ tokens, token ∉ seen := by
  induction tokens generalizing seen with
  | nil => simp [firstRepeated?]
  | cons token later ih =>
      unfold firstRepeated?
      by_cases hseen : token ∈ seen
      · simp [hseen]
      · simp only [hseen, if_false, ih, List.nodup_cons, List.mem_cons]
        grind

end Checks

section Keywords

theorem keywordKind?_eq_some_iff {token : String} {kind : StatementKind} :
    keywordKind? token = some kind ↔ (token, kind) ∈ keywords := by
  constructor
  · intro hfound
    obtain ⟨front, back, hkeywords, _⟩ := List.lookup_eq_some_iff.mp hfound
    rw [hkeywords]
    exact List.mem_append_right front List.mem_cons_self
  · intro hlisted
    have hall : ∀ entry ∈ keywords, keywordKind? entry.1 = some entry.2 := by
      decide
    exact hall _ hlisted

/-- A line has the kind of its keyword, or it is an assignment. -/
theorem classify_eq_ok_iff {first : String} {rest : List String}
    {kind : StatementKind} :
    classify (first :: rest) = .ok kind ↔
      (first, kind) ∈ keywords ∨
        isKeyword first = false ∧ kind = .assign ∧
          rest.head? = some Word.assign := by
  rw [← keywordKind?_eq_some_iff]
  cases hkeyword : keywordKind? first with
  | some found => simp [classify, hkeyword, isKeyword]
  | none =>
      rcases rest with _ | ⟨second, later⟩
      · simp [classify, hkeyword]
      · by_cases hassign : second = Word.assign
        · simp [classify, hkeyword, isKeyword, hassign, eq_comm]
        · simp [classify, hkeyword, hassign]

end Keywords

section Counting

variable {least most : Nat} {operands : List String}

@[simp]
theorem hasCount_cons (token : String) :
    HasCount (least + 1) (most + 1) (token :: operands) ↔
      HasCount least most operands := by
  simp [HasCount]

@[simp]
theorem hasCount_concat (token : String) :
    HasCount (least + 1) (most + 1) (operands ++ [token]) ↔
      HasCount least most operands := by
  simp [HasCount]

theorem HasCount.ne_nil (hcount : HasCount (least + 1) most operands) :
    operands ≠ [] := by
  rintro rfl
  simp [HasCount] at hcount

theorem exists_cons_cons_of_hasCount
    (hcount : HasCount (least + 2) (most + 2) operands) :
    ∃ first second later, operands = first :: second :: later ∧
      HasCount least most later := by
  match operands with
  | first :: second :: later =>
      exact ⟨first, second, later, rfl, by simpa using hcount⟩
  | [_] | [] => simp [HasCount] at hcount

end Counting

@[simp]
theorem getLast?_cons_concat (first last : String) (front : List String) :
    (first :: (front ++ [last])).getLast? = some last := by
  rw [← List.cons_append, List.getLast?_concat]

/-- A line with more than its first token ends with what follows that. -/
theorem exists_concat_of_getLast? {first last : String} {rest : List String}
    (hrest : rest ≠ []) (hlast : (first :: rest).getLast? = some last) :
    ∃ front, rest = front ++ [last] := by
  rw [List.getLast?_cons_of_ne_nil hrest] at hlast
  exact List.getLast?_eq_some_iff.mp hlast

section Kinds

variable {kind : StatementKind} {keyword : String} {rest : List String}
  {expression : Expression}

theorem operandSlots_declaration_iff
    (hkind : kind = .declare ∨ kind = .constant) :
    operandSlots kind (keyword :: rest) = .ok expression ↔
      ∃ name operands, rest = name :: Word.assign :: operands ∧
        HasCount 1 3 operands ∧ .ofTokens operands = expression := by
  have hrange : kind.tokenRange? = some (4, 6) := by
    rcases hkind with rfl | rfl <;> rfl
  have hslots (tokens : List String) : operandSlots kind tokens = (do
      checkTokenCount kind tokens
      expectAssign tokens
      .ok (.ofTokens (tokens.drop 3))) := by
    rcases hkind with rfl | rfl <;> rfl
  simp only [hslots, bind_eq_ok_iff, checkTokenCount_eq_ok_iff hrange,
    expectAssign_eq_ok_iff, Except.ok.injEq]
  match rest with
  | [] => simp
  | [name] => simp
  | name :: mark :: operands =>
      simp
      grind

theorem operandSlots_assignment_iff {name : String} {operands : List String} :
    operandSlots .assign (name :: Word.assign :: operands) = .ok expression ↔
      HasCount 1 3 operands ∧ .ofTokens operands = expression := by
  have hrange : StatementKind.assign.tokenRange? = some (3, 5) := rfl
  simp only [operandSlots, bind_eq_ok_iff, checkTokenCount_eq_ok_iff hrange]
  simp

theorem operandSlots_command_iff {least most : Nat} {operands : List String}
    (hlisted : (keyword, kind, least, most) ∈ commands) :
    operandSlots kind (keyword :: operands) = .ok expression ↔
      HasCount least most operands ∧ .ofTokens operands = expression := by
  have hrange : ∀ entry ∈ commands, entry.2.1.tokenRange? =
      some (entry.2.2.1 + 1, entry.2.2.2 + 1) := by decide
  have hslots : ∀ entry ∈ commands, ∀ tokens,
      operandSlots entry.2.1 tokens = (do
        checkTokenCount entry.2.1 tokens
        .ok (.ofTokens (tokens.drop 1))) := by
    simp [commands, operandSlots]
  simp only [hslots _ hlisted, bind_eq_ok_iff,
    checkTokenCount_eq_ok_iff (hrange _ hlisted)]
  simp

theorem operandSlots_guard_iff {least : Nat}
    (hlisted : (keyword, kind, least) ∈ guards) :
    operandSlots kind (keyword :: rest) = .ok expression ↔
      ∃ operands, rest = operands ++ [Word.blockOpen] ∧
        HasCount least 3 operands ∧ .ofTokens operands = expression := by
  have hrange : ∀ entry ∈ guards, entry.2.1.tokenRange? =
      some (entry.2.2 + 2, 5) := by decide
  have hslots : ∀ entry ∈ guards, ∀ tokens,
      operandSlots entry.2.1 tokens = (do
        checkTokenCount entry.2.1 tokens
        expectBlockOpen entry.2.1 tokens
        .ok (.ofTokens (tokens.drop 1).dropLast)) := by
    simp [guards, operandSlots]
  simp only [hslots _ hlisted, bind_eq_ok_iff,
    checkTokenCount_eq_ok_iff (hrange _ hlisted), expectBlockOpen_eq_ok_iff,
    Except.ok.injEq]
  constructor
  · rintro ⟨_, hcount, _, hlast, rfl⟩
    rw [hasCount_cons] at hcount
    obtain ⟨operands, rfl⟩ := exists_concat_of_getLast? hcount.ne_nil hlast
    exact ⟨operands, rfl, by simpa using hcount, by simp⟩
  · rintro ⟨operands, rfl, hcount, rfl⟩
    exact ⟨(), by simpa using hcount, (), by simp, by simp⟩

theorem arrayOperands_eq_ok_iff {tokens : List String} :
    arrayOperands tokens = .ok expression ↔
      (∃ operands, tokens = Word.arrayOpen :: (operands ++ [Word.arrayClose]) ∧
        .ofTokens operands = expression) ∨
      (∃ source, tokens = [Word.arrayPop, source] ∧
        .ofTokens [Word.arrayPop, source] = expression) ∨
      ∃ source index, tokens = [Word.arrayAt, source, index] ∧
        .ofTokens [Word.arrayAt, source, index] = expression := by
  have hpopAt : Word.arrayPop ≠ Word.arrayAt := by decide
  have hpopOpen : Word.arrayPop ≠ Word.arrayOpen := by decide
  have hatOpen : Word.arrayAt ≠ Word.arrayOpen := by decide
  rcases tokens with _ | ⟨source, rest⟩
  · simp [arrayOperands]
  · simp only [arrayOperands]
    split
    · next hpop =>
      obtain ⟨rfl, hlength⟩ := hpop
      obtain ⟨array, rfl⟩ := List.length_eq_one_iff.mp hlength
      simp [hpopAt, hpopOpen]
    · next hpop =>
      split
      · next hat =>
        obtain ⟨rfl, hlength⟩ := hat
        match rest, hlength with
        | [array, index], _ => simp [hatOpen, and_assoc]
      · next hat =>
        split
        · next hopen =>
          obtain ⟨rfl, hlast⟩ := hopen
          obtain ⟨operands, rfl⟩ := List.getLast?_eq_some_iff.mp hlast
          simp [hpopOpen.symm, hatOpen.symm]
        · next hopen =>
          -- The line is rejected, and each of the three forms contradicts a test.
          simp only [reduceCtorEq, List.cons.injEq, false_iff]
          rintro (⟨operands, ⟨rfl, rfl⟩, _⟩ | ⟨array, ⟨rfl, rfl⟩, _⟩ |
            ⟨array, index, ⟨rfl, rfl⟩, _⟩)
          · simp at hopen
          · simp at hpop
          · simp at hat

theorem operandSlots_arrayDeclare_iff :
    operandSlots .arrayDeclare (keyword :: rest) = .ok expression ↔
      ∃ name right, rest = name :: Word.assign :: right ∧
        HasCount 2 5 right ∧ arrayOperands right = .ok expression := by
  have hrange : StatementKind.arrayDeclare.tokenRange? = some (5, 8) := rfl
  simp only [operandSlots, bind_eq_ok_iff, checkTokenCount_eq_ok_iff hrange,
    expectAssign_eq_ok_iff]
  match rest with
  | [] => simp
  | [name] => simp
  | name :: mark :: right =>
      simp
      grind

theorem parameterOperands_eq_ok_iff {name mark last : String}
    {parameters : List String} :
    parameterOperands (keyword :: name :: mark :: (parameters ++ [last])) =
        .ok expression ↔
      parameters.Nodup ∧ .ofTokens parameters = expression := by
  have hdistinct : firstRepeated? [] parameters = none ↔ parameters.Nodup := by
    simp [firstRepeated?_eq_none_iff]
  simp only [parameterOperands, List.drop_succ_cons, List.drop_zero,
    List.dropLast_concat]
  cases hrepeated : firstRepeated? [] parameters with
  | none => simp [hdistinct.mp hrepeated]
  | some found => simp [← hdistinct, hrepeated]

theorem operandSlots_define_iff :
    operandSlots .define (keyword :: rest) = .ok expression ↔
      ∃ name parameters,
        rest = name :: Word.parameterSeparator ::
          (parameters ++ [Word.blockOpen]) ∧
        HasCount 0 3 parameters ∧ parameters.Nodup ∧
        .ofTokens parameters = expression := by
  have hrange : StatementKind.define.tokenRange? = some (4, 7) := rfl
  simp only [operandSlots, bind_eq_ok_iff, checkTokenCount_eq_ok_iff hrange,
    expectParameterSeparator_eq_ok_iff, expectBlockOpen_eq_ok_iff]
  constructor
  · rintro ⟨_, hcount, _, hmark, _, hlast, hslots⟩
    match rest with
    | [] | [_] => simp at hmark
    | name :: mark :: right =>
        obtain rfl : mark = Word.parameterSeparator := by simpa using hmark
        simp only [hasCount_cons] at hcount
        rw [List.getLast?_cons_cons, List.getLast?_cons_cons] at hlast
        obtain ⟨parameters, rfl⟩ := exists_concat_of_getLast? hcount.ne_nil hlast
        obtain ⟨hdistinct, rfl⟩ := parameterOperands_eq_ok_iff.mp hslots
        exact ⟨name, parameters, rfl, by simpa using hcount, hdistinct, rfl⟩
  · rintro ⟨name, parameters, rfl, hcount, hdistinct, rfl⟩
    exact ⟨(), by simpa using hcount, (), rfl, (), by simp,
      parameterOperands_eq_ok_iff.mpr ⟨hdistinct, rfl⟩⟩

/-- A line without the block mark at its end, if it has one. -/
def withoutBlockOpen (tokens : List String) : List String :=
  if endsWithBlockOpen tokens then tokens.dropLast else tokens

theorem withoutBlockOpen_concat (front : List String) :
    withoutBlockOpen (front ++ [Word.blockOpen]) = front := by
  simp [withoutBlockOpen, endsWithBlockOpen]

theorem withoutBlockOpen_of_ne {tokens : List String}
    (hlast : tokens.getLast? ≠ some Word.blockOpen) :
    withoutBlockOpen tokens = tokens := by
  simp [withoutBlockOpen, endsWithBlockOpen, hlast]

/-- The block mark is one more token at most. -/
theorem HasCount.of_withoutBlockOpen {least most : Nat} {tokens : List String}
    (hcount : HasCount least most (withoutBlockOpen tokens)) :
    HasCount least (most + 1) tokens := by
  unfold withoutBlockOpen at hcount
  split at hcount
  · simp only [HasCount, List.length_dropLast] at hcount ⊢
    omega
  · exact ⟨hcount.1, Nat.le_succ_of_le hcount.2⟩

theorem operandSlots_call_eq_ok_iff {tokens : List String} :
    operandSlots .call tokens = .ok expression ↔
      HasCount 2 5 (withoutBlockOpen tokens) ∧
        .ofTokens ((withoutBlockOpen tokens).drop 2) = expression := by
  have hrange : StatementKind.call.tokenRange? = some (2, 6) := rfl
  have hcall : callOperands tokens =
      if 2 ≤ (withoutBlockOpen tokens).length ∧
          (withoutBlockOpen tokens).length ≤ 5 then
        .ok (.ofTokens ((withoutBlockOpen tokens).drop 2))
      else
        .error (.tokenCount .call tokens.length 2
          (if endsWithBlockOpen tokens then 6 else 5)) := rfl
  simp only [operandSlots, bind_eq_ok_iff, checkTokenCount_eq_ok_iff hrange,
    hcall]
  split
  · next hcount =>
    have hused : HasCount 2 5 (withoutBlockOpen tokens) := hcount
    simp [hused, hused.of_withoutBlockOpen]
  · next hcount =>
    have hused : ¬HasCount 2 5 (withoutBlockOpen tokens) := hcount
    simp [hused]

theorem operandSlots_call_iff :
    operandSlots .call (keyword :: rest) = .ok expression ↔
      ∃ name operands, HasCount 0 3 operands ∧
        (rest = name :: (operands ++ [Word.blockOpen]) ∨
          rest = name :: operands ∧ rest.getLast? ≠ some Word.blockOpen) ∧
        .ofTokens operands = expression := by
  rw [operandSlots_call_eq_ok_iff]
  constructor
  · rintro ⟨hcount, rfl⟩
    obtain ⟨first, name, operands, hused, hoperands⟩ :=
      exists_cons_cons_of_hasCount hcount
    rw [hused]
    refine ⟨name, operands, hoperands, ?_, rfl⟩
    -- A name follows the keyword, so line and rest end with the same token.
    by_cases hlast : (keyword :: rest).getLast? = some Word.blockOpen
    · obtain ⟨front, hfront⟩ := List.getLast?_eq_some_iff.mp hlast
      rw [hfront, withoutBlockOpen_concat] at hused
      rw [hused] at hfront
      exact Or.inl (List.cons.inj hfront).2
    · rw [withoutBlockOpen_of_ne hlast] at hused
      obtain ⟨rfl, rfl⟩ := List.cons.inj hused
      exact Or.inr ⟨rfl, hlast⟩
  · rintro ⟨name, operands, hcount, hline, rfl⟩
    have hused : withoutBlockOpen (keyword :: rest) =
        keyword :: name :: operands := by
      rcases hline with rfl | ⟨rfl, hlast⟩
      · exact withoutBlockOpen_concat (keyword :: name :: operands)
      · exact withoutBlockOpen_of_ne hlast
    rw [hused]
    exact ⟨by simpa using hcount, rfl⟩

theorem operandSlots_leave_iff :
    operandSlots .leave (keyword :: rest) = .ok expression ↔
      rest = [] ∧ .ofTokens [] = expression := by
  have hrange : StatementKind.leave.tokenRange? = some (1, 1) := rfl
  simp only [operandSlots, bind_eq_ok_iff, checkTokenCount_eq_ok_iff hrange]
  simp [HasCount, Expression.ofTokens]

end Kinds

section Acceptance

variable {kind : StatementKind} {keyword : String} {tokens operands : List String}
  {expression : Expression}

theorem keyword_cases (hlisted : (keyword, kind) ∈ keywords) :
    (keyword = "var" ∧ kind = .declare) ∨
    (keyword = "const" ∧ kind = .constant) ∨
    (keyword = "var[]" ∧ kind = .arrayDeclare) ∨
    (∃ least most, (keyword, kind, least, most) ∈ commands) ∨
    (∃ least, (keyword, kind, least) ∈ guards) ∨
    (keyword = "function" ∧ kind = .define) ∨
    (keyword = "call" ∧ kind = .call) ∨
    (keyword = "return" ∧ kind = .leave) ∨
    kind = .blockOpen ∨ kind = .blockClose := by
  simp only [keywords, List.mem_cons, Prod.mk.injEq, List.not_mem_nil,
    or_false] at hlisted
  rcases hlisted with h | h | h | h | h | h | h | h | h | h | h | h | h | h | h |
    h | h | h | h | h | h <;> obtain ⟨rfl, rfl⟩ := h <;> simp [commands, guards]

/-- The operands of a keyword's line, by the family of the keyword. -/
theorem LineShape.of_keyword {rest : List String}
    (hlisted : (keyword, kind) ∈ keywords)
    (hslots : operandSlots kind (keyword :: rest) = .ok expression) :
    ∃ operands, LineShape kind (keyword :: rest) operands ∧
      .ofTokens operands = expression := by
  rcases keyword_cases hlisted with ⟨rfl, rfl⟩ | ⟨rfl, rfl⟩ | ⟨rfl, rfl⟩ |
    ⟨least, most, hcommand⟩ | ⟨least, hguard⟩ | ⟨rfl, rfl⟩ | ⟨rfl, rfl⟩ |
    ⟨rfl, rfl⟩ | rfl | rfl
  · obtain ⟨name, operands, rfl, hcount, hfilled⟩ :=
      (operandSlots_declaration_iff (Or.inl rfl)).mp hslots
    exact ⟨operands, .declaration hcount, hfilled⟩
  · obtain ⟨name, operands, rfl, hcount, hfilled⟩ :=
      (operandSlots_declaration_iff (Or.inr rfl)).mp hslots
    exact ⟨operands, .constant hcount, hfilled⟩
  · obtain ⟨name, right, rfl, hcount, hright⟩ :=
      operandSlots_arrayDeclare_iff.mp hslots
    rcases arrayOperands_eq_ok_iff.mp hright with ⟨operands, rfl, hfilled⟩ |
      ⟨source, rfl, hfilled⟩ | ⟨source, index, rfl, hfilled⟩
    · exact ⟨operands, .elements (by simpa using hcount), hfilled⟩
    · exact ⟨_, .lastOf, hfilled⟩
    · exact ⟨_, .elementOf, hfilled⟩
  · obtain ⟨hcount, hfilled⟩ := (operandSlots_command_iff hcommand).mp hslots
    exact ⟨rest, .command hcommand hcount, hfilled⟩
  · obtain ⟨operands, rfl, hcount, hfilled⟩ :=
      (operandSlots_guard_iff hguard).mp hslots
    exact ⟨operands, .guarded hguard hcount, hfilled⟩
  · obtain ⟨name, parameters, rfl, hcount, hdistinct, hfilled⟩ :=
      operandSlots_define_iff.mp hslots
    exact ⟨parameters, .definition hcount hdistinct, hfilled⟩
  · obtain ⟨name, operands, hcount, rfl | ⟨rfl, hlast⟩, hfilled⟩ :=
      operandSlots_call_iff.mp hslots
    · exact ⟨operands, .callWithBody hcount, hfilled⟩
    · exact ⟨operands, .call hcount hlast, hfilled⟩
  · obtain ⟨rfl, hfilled⟩ := operandSlots_leave_iff.mp hslots
    exact ⟨[], .leave, hfilled⟩
  -- A block mark is a keyword, but no line that starts with it is a statement.
  · simp [operandSlots, bind_eq_ok_iff] at hslots
  · simp [operandSlots, bind_eq_ok_iff] at hslots

theorem LineShape.of_accepted (hkind : classify tokens = .ok kind)
    (hslots : operandSlots kind tokens = .ok expression) :
    ∃ operands, LineShape kind tokens operands ∧
      .ofTokens operands = expression := by
  match tokens with
  | [] => simp [classify] at hkind
  | first :: rest =>
      rcases classify_eq_ok_iff.mp hkind with hlisted | ⟨hfree, rfl, hassign⟩
      · exact LineShape.of_keyword hlisted hslots
      · obtain ⟨operands, rfl⟩ := List.head?_eq_some_iff.mp hassign
        obtain ⟨hcount, hfilled⟩ := operandSlots_assignment_iff.mp hslots
        exact ⟨operands, .assignment hfree hcount, hfilled⟩

theorem LineShape.classify_eq (hshape : LineShape kind tokens operands) :
    classify tokens = .ok kind := by
  have hcommands : ∀ entry ∈ commands, (entry.1, entry.2.1) ∈ keywords := by
    decide
  have hguards : ∀ entry ∈ guards, (entry.1, entry.2.1) ∈ keywords := by
    decide
  cases hshape with
  | assignment hfree => exact classify_eq_ok_iff.mpr (Or.inr ⟨hfree, rfl, rfl⟩)
  | command hlisted => exact classify_eq_ok_iff.mpr (Or.inl (hcommands _ hlisted))
  | guarded hlisted => exact classify_eq_ok_iff.mpr (Or.inl (hguards _ hlisted))
  | _ => exact classify_eq_ok_iff.mpr (Or.inl (by decide))

theorem LineShape.operandSlots_eq (hshape : LineShape kind tokens operands) :
    operandSlots kind tokens = .ok (.ofTokens operands) := by
  cases hshape with
  | declaration hcount =>
      exact (operandSlots_declaration_iff (Or.inl rfl)).mpr
        ⟨_, _, rfl, hcount, rfl⟩
  | constant hcount =>
      exact (operandSlots_declaration_iff (Or.inr rfl)).mpr
        ⟨_, _, rfl, hcount, rfl⟩
  | assignment _ hcount => exact operandSlots_assignment_iff.mpr ⟨hcount, rfl⟩
  | elements hcount =>
      exact operandSlots_arrayDeclare_iff.mpr ⟨_, _, rfl, by simpa using hcount,
        arrayOperands_eq_ok_iff.mpr (Or.inl ⟨_, rfl, rfl⟩)⟩
  | lastOf =>
      exact operandSlots_arrayDeclare_iff.mpr ⟨_, _, rfl, by simp [HasCount],
        arrayOperands_eq_ok_iff.mpr (Or.inr (Or.inl ⟨_, rfl, rfl⟩))⟩
  | elementOf =>
      exact operandSlots_arrayDeclare_iff.mpr ⟨_, _, rfl, by simp [HasCount],
        arrayOperands_eq_ok_iff.mpr (Or.inr (Or.inr ⟨_, _, rfl, rfl⟩))⟩
  | command hlisted hcount =>
      exact (operandSlots_command_iff hlisted).mpr ⟨hcount, rfl⟩
  | guarded hlisted hcount =>
      exact (operandSlots_guard_iff hlisted).mpr ⟨_, rfl, hcount, rfl⟩
  | definition hcount hdistinct =>
      exact operandSlots_define_iff.mpr ⟨_, _, rfl, hcount, hdistinct, rfl⟩
  | call hcount hlast =>
      exact operandSlots_call_iff.mpr
        ⟨_, _, hcount, Or.inr ⟨rfl, hlast⟩, rfl⟩
  | callWithBody hcount =>
      exact operandSlots_call_iff.mpr ⟨_, _, hcount, Or.inl rfl, rfl⟩
  | leave => exact operandSlots_leave_iff.mpr ⟨rfl, rfl⟩

/-- No shape has more operands than there are slots. -/
theorem LineShape.length_operands_le (hshape : LineShape kind tokens operands) :
    operands.length ≤ 3 := by
  have hcommands : ∀ entry ∈ commands, entry.2.2.2 ≤ 3 := by decide
  cases hshape with
  | command hlisted hcount => exact Nat.le_trans hcount.2 (hcommands _ hlisted)
  | declaration hcount | constant hcount | assignment _ hcount
  | elements hcount | guarded _ hcount | definition hcount _ | call hcount _
  | callWithBody hcount => exact hcount.2
  | lastOf | elementOf | leave => simp

theorem LineShape.sublist (hshape : LineShape kind tokens operands) :
    operands.Sublist tokens := by
  cases hshape <;> grind

theorem LineShape.operands_eq (htokens : "" ∉ tokens)
    (hshape : LineShape kind tokens operands) :
    (Expression.ofTokens operands).operands = operands :=
  Expression.operands_ofTokens hshape.length_operands_le
    (fun hempty => htokens (hshape.sublist.subset hempty))

/-- A line has one shape at most: the shape gives what the line is read as, and
that gives back the kind and the operands. -/
theorem LineShape.unique {otherKind : StatementKind} {others : List String}
    (htokens : "" ∉ tokens) (hshape : LineShape kind tokens operands)
    (hother : LineShape otherKind tokens others) :
    otherKind = kind ∧ others = operands := by
  obtain rfl : otherKind = kind :=
    Except.ok.inj (hother.classify_eq.symm.trans hshape.classify_eq)
  have hfilled : Expression.ofTokens others = .ofTokens operands :=
    Except.ok.inj (hother.operandSlots_eq.symm.trans hshape.operandSlots_eq)
  refine ⟨rfl, ?_⟩
  rw [← hother.operands_eq htokens, hfilled, hshape.operands_eq htokens]

/-- A line of tokens that are not empty is accepted exactly when it has one of the
shapes.  It then has one shape only, and its operands are in the slots from the
left, with the empty slots after them. -/
theorem line_accepted_iff_lineShape (htokens : "" ∉ tokens) :
    ((∃ kind expression, classify tokens = .ok kind ∧
        operandSlots kind tokens = .ok expression) ↔
      ∃ kind operands, LineShape kind tokens operands) ∧
    ∀ kind expression, classify tokens = .ok kind →
      operandSlots kind tokens = .ok expression →
      ∃ operands, LineShape kind tokens operands ∧
        (∀ otherKind others, LineShape otherKind tokens others →
          otherKind = kind ∧ others = operands) ∧
        expression.operands = operands ∧
        expression.slots =
          operands ++ List.replicate (3 - operands.length) "" := by
  constructor
  · constructor
    · rintro ⟨kind, expression, hkind, hslots⟩
      obtain ⟨operands, hshape, _⟩ := LineShape.of_accepted hkind hslots
      exact ⟨kind, operands, hshape⟩
    · rintro ⟨kind, operands, hshape⟩
      exact ⟨kind, _, hshape.classify_eq, hshape.operandSlots_eq⟩
  · intro kind expression hkind hslots
    obtain ⟨operands, hshape, rfl⟩ := LineShape.of_accepted hkind hslots
    exact ⟨operands, hshape, fun _ _ hother => hshape.unique htokens hother,
      hshape.operands_eq htokens,
      Expression.slots_ofTokens hshape.length_operands_le⟩

/-- A call with one argument and a body has one shape; the block mark alone does
not name what is called. -/
theorem call_line_shapes :
    "" ∉ ["call", "f", "a", "\x7b"] ∧ "" ∉ ["call", "\x7b"] ∧
    LineShape .call ["call", "f", "a", "\x7b"] ["a"] ∧
    (∀ otherKind others, LineShape otherKind ["call", "f", "a", "\x7b"] others →
      otherKind = .call ∧ others = ["a"]) ∧
    ¬∃ kind operands, LineShape kind ["call", "\x7b"] operands := by
  have hbody : "" ∉ ["call", "f", "a", "\x7b"] := by decide
  have hnameless : "" ∉ ["call", "\x7b"] := by decide
  obtain ⟨operands, hshape, hunique, hoperands, _⟩ :=
    (line_accepted_iff_lineShape hbody).2 .call { left := "a" } rfl rfl
  obtain rfl : ["a"] = operands := hoperands
  refine ⟨hbody, hnameless, hshape, hunique, ?_⟩
  rw [← (line_accepted_iff_lineShape hnameless).1]
  rintro ⟨kind, expression, hkind, hslots⟩
  obtain rfl : StatementKind.call = kind := Except.ok.inj hkind
  cases hslots

end Acceptance

end LineScript
