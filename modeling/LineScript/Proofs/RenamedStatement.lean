/-
Statements with other tokens.  Under bindings that give the replaced tokens the
meaning of the tokens themselves, names, operands, conditions and arguments come
out as they did, and so does the effect of every statement without a body.  Only
the name in one kind of fault tells the two apart, because a declared array reports
its source as written.
-/
import LineScript.Execution
import LineScript.Proofs.StatementEffect

namespace LineScript

/-- Replaces every slot. -/
def Expression.mapTokens (rename : String → String)
    (expression : Expression) : Expression where
  left := rename expression.left
  middle := rename expression.middle
  right := rename expression.right

namespace Statement

mutual

/-- Replaces every token of a statement, also in its bodies. -/
def mapTokens (rename : String → String) : Statement → Statement
  | ⟨kind, line, lineNo, expression, body, second⟩ =>
    { kind, lineNo
      line := line.map rename
      expression := expression.mapTokens rename
      body := mapTokensAll rename body
      second := mapTokensAll rename second }

/-- Replaces every token of some statements, also in their bodies. -/
def mapTokensAll (rename : String → String) :
    List Statement → List Statement
  | [] => []
  | statement :: later =>
    mapTokens rename statement :: mapTokensAll rename later

end

mutual

/-- Neither a statement nor any statement of its body, at any depth, is a
definition. -/
def definesNothing : Statement → Bool
  | ⟨kind, _, _, _, body, _⟩ => kind ≠ .define && definesNothingAll body

/-- No statement of a list is a definition, at any depth. -/
def definesNothingAll : List Statement → Bool
  | [] => true
  | statement :: later => definesNothing statement && definesNothingAll later

end

variable (rename : String → String) (statement : Statement)

@[simp]
theorem kind_mapTokens : (statement.mapTokens rename).kind = statement.kind := by
  cases statement
  rw [mapTokens]

@[simp]
theorem line_mapTokens :
    (statement.mapTokens rename).line = statement.line.map rename := by
  cases statement
  rw [mapTokens]

@[simp]
theorem lineNo_mapTokens :
    (statement.mapTokens rename).lineNo = statement.lineNo := by
  cases statement
  rw [mapTokens]

@[simp]
theorem expression_mapTokens :
    (statement.mapTokens rename).expression =
      statement.expression.mapTokens rename := by
  cases statement
  rw [mapTokens]

@[simp]
theorem body_mapTokens :
    (statement.mapTokens rename).body =
      mapTokensAll rename statement.body := by
  cases statement
  rw [mapTokens]

theorem target?_mapTokens :
    (statement.mapTokens rename).target? =
      statement.target?.map rename := by
  simp only [target?, kind_mapTokens, line_mapTokens]
  split <;> simp

theorem definesNothing_iff :
    statement.definesNothing = true ↔
      statement.kind ≠ .define ∧ definesNothingAll statement.body = true := by
  cases statement
  simp [definesNothing]

mutual

theorem mapTokens_id : ∀ statement : Statement,
    statement.mapTokens id = statement
  | ⟨kind, line, lineNo, expression, body, second⟩ => by
    rw [mapTokens, mapTokensAll_id body, mapTokensAll_id second, List.map_id]
    rfl

theorem mapTokensAll_id : ∀ statements : List Statement,
    mapTokensAll id statements = statements
  | [] => by rw [mapTokensAll]
  | statement :: later => by
    rw [mapTokensAll, mapTokens_id statement, mapTokensAll_id later]

end

end Statement

/-- Faults that are the same but for the name of something that is no array. -/
inductive Fault.Alike : Fault → Fault → Prop
  | same (fault : Fault) : Alike fault fault
  | notAnArray (left right : String) :
    Alike (.notAnArray left) (.notAnArray right)

namespace Machine

/-- A machine with other bindings. -/
def rebind (machine : Machine) (bindings : List Bindings) : Machine :=
  { machine with bindings }

/-- Under other bindings, the replaced tokens stand for what the tokens stand
for; and no token becomes empty. -/
structure Renames (rename : String → String) (machine : Machine)
    (bindings : List Bindings) : Prop where
  token : ∀ token, (machine.rebind bindings).substitute (rename token) =
    machine.substitute token
  empty : ∀ token, rename token = "" ↔ token = ""

namespace Renames

variable {rename : String → String} {machine : Machine}
  {bindings : List Bindings}

theorem of_bindings_eq {other : Machine} (hrenames : Renames rename machine bindings)
    (hbindings : other.bindings = machine.bindings) :
    Renames rename other bindings := by
  refine ⟨?_, hrenames.empty⟩
  intro token
  have htoken := hrenames.token token
  simp only [substitute, rebind, hbindings] at htoken ⊢
  exact htoken

/-- With the same innermost bindings, tokens stand for the same. -/
theorem same_top {bound : Bindings} {below other : List Bindings}
    (hbindings : machine.bindings = bound :: below) :
    Renames id machine (bound :: other) := by
  refine ⟨?_, fun _ => Iff.rfl⟩
  intro token
  simp [substitute, rebind, hbindings]

theorem resolve (hrenames : Renames rename machine bindings)
    (token : String) :
    (machine.rebind bindings).resolve (rename token) =
      machine.resolve token := by
  simp only [Machine.resolve, hrenames.empty, hrenames.token]
  rfl

theorem resolveIndex (hrenames : Renames rename machine bindings)
    (token : String) :
    (machine.rebind bindings).resolveIndex (rename token) =
      machine.resolveIndex token := by
  simp only [Machine.resolveIndex, hrenames.resolve]

theorem arrayElement (hrenames : Renames rename machine bindings)
    (source index : String) :
    (machine.rebind bindings).arrayElement (rename source) (rename index) =
      machine.arrayElement source index := by
  simp only [Machine.arrayElement, hrenames.resolveIndex, hrenames.token]
  rfl

theorem evaluate (hrenames : Renames rename machine bindings)
    (expression : Expression) (hint : Option Kind) :
    (machine.rebind bindings).evaluate (expression.mapTokens rename) hint =
      machine.evaluate expression hint := by
  simp only [Machine.evaluate, Expression.mapTokens, hrenames.token,
    hrenames.resolve, hrenames.arrayElement]
  rfl

theorem evaluateCondition (hrenames : Renames rename machine bindings)
    (expression : Expression) :
    (machine.rebind bindings).evaluateCondition
        (expression.mapTokens rename) =
      machine.evaluateCondition expression := by
  simp only [Machine.evaluateCondition, Expression.mapTokens, hrenames.token,
    hrenames.resolve]

theorem operands (hrenames : Renames rename machine bindings)
    (expression : Expression) :
    (expression.mapTokens rename).operands =
      expression.operands.map rename := by
  have hslots : (expression.mapTokens rename).slots =
      expression.slots.map rename := rfl
  rw [Expression.operands, Expression.operands, hslots, List.filter_map]
  congr 2
  funext token
  simp [hrenames.empty]

theorem blockCondition (hrenames : Renames rename machine bindings)
    (statement : Statement) :
    (machine.rebind bindings).blockCondition (statement.mapTokens rename) =
      machine.blockCondition statement := by
  simp [Machine.blockCondition, Expression.isEmpty, hrenames.operands,
    hrenames.evaluateCondition]

theorem targetName (hrenames : Renames rename machine bindings)
    (statement : Statement) :
    (machine.rebind bindings).targetName (statement.mapTokens rename) =
      machine.targetName statement := by
  simp only [Machine.targetName, Statement.target?_mapTokens]
  cases statement.target? with
  | none =>
      have hempty := hrenames.token ""
      rw [(hrenames.empty "").mpr rfl] at hempty
      exact hempty
  | some token => exact hrenames.token token

theorem callee (hrenames : Renames rename machine bindings)
    (statement : Statement) :
    (machine.rebind bindings).callee (statement.mapTokens rename) =
      machine.callee statement := by
  simp only [Machine.callee, hrenames.targetName]
  rfl

theorem bindArguments (hrenames : Renames rename machine bindings)
    (parameters arguments : Expression) :
    (machine.rebind bindings).bindArguments parameters
        (arguments.mapTokens rename) =
      machine.bindArguments parameters arguments := by
  have hslots : (arguments.mapTokens rename).slots =
      arguments.slots.map rename := rfl
  simp only [Machine.bindArguments, hslots, List.zip_map_right,
    List.filter_map, List.map_map]
  congr 1
  have hused : ((fun (pair : String × String) =>
      pair.1 ≠ "" && pair.2 ≠ "") ∘ Prod.map id rename) =
        fun pair => pair.1 ≠ "" && pair.2 ≠ "" := by
    funext pair
    simp [hrenames.empty]
  rw [hused]
  congr 1
  funext pair
  simp [hrenames.token]

theorem printPiece (hrenames : Renames rename machine bindings)
    (token : String) :
    (machine.rebind bindings).printPiece (rename token) =
      machine.printPiece token := by
  simp only [Machine.printPiece, hrenames.token]
  rfl

end Renames

/-- The same change of two machines that differ in their bindings. -/
inductive SameChange (bindings : List Bindings) :
    Except Fault Machine → Except Fault Machine → Prop
  | ok (machine : Machine) :
    SameChange bindings (.ok machine) (.ok (machine.rebind bindings))
  | error {left right : Fault} : left.Alike right →
    SameChange bindings (.error left) (.error right)

theorem SameChange.of_map {bindings : List Bindings}
    (result : Except Fault Machine) :
    SameChange bindings result (result.map (·.rebind bindings)) := by
  cases result with
  | error fault => exact .error (.same fault)
  | ok machine => exact .ok machine

/-- The same effect on two machines that differ in their bindings. -/
inductive SameEffect (bindings : List Bindings) :
    Except Fault Unit × Machine → Except Fault Unit × Machine → Prop
  | ok (machine : Machine) :
    SameEffect bindings (.ok (), machine) (.ok (), machine.rebind bindings)
  | error {left right : Fault} (machine : Machine) : left.Alike right →
    SameEffect bindings (.error left, machine)
      (.error right, machine.rebind bindings)

theorem SameEffect.of_rebind {bindings : List Bindings}
    (performed : Except Fault Unit × Machine) :
    SameEffect bindings performed
      (performed.1, performed.2.rebind bindings) := by
  obtain ⟨_ | _, machine⟩ := performed
  · exact .error machine (.same _)
  · exact .ok machine

theorem SameChange.commit {machine : Machine} {bindings : List Bindings}
    {left right : Except Fault Machine}
    (hsame : SameChange bindings left right) :
    SameEffect bindings (machine.commit left)
      ((machine.rebind bindings).commit right) := by
  cases hsame with
  | ok changed => exact .ok changed
  | error halike => exact .error machine halike

namespace Renames

variable {rename : String → String} {machine : Machine}
  {bindings : List Bindings}

theorem declare (hrenames : Renames rename machine bindings)
    (statement : Statement) :
    SameChange bindings (machine.declare statement)
      ((machine.rebind bindings).declare (statement.mapTokens rename)) := by
  have hmap : (machine.rebind bindings).declare (statement.mapTokens rename) =
      (machine.declare statement).map (·.rebind bindings) := by
    simp only [Machine.declare, hrenames.targetName,
      Statement.expression_mapTokens, hrenames.evaluate,
      Statement.kind_mapTokens]
    change (if machine.store.contains _ = true then _ else _) = _
    split
    · rfl
    · cases machine.evaluate statement.expression none <;> rfl
  exact hmap ▸ .of_map _

theorem assign (hrenames : Renames rename machine bindings)
    (statement : Statement) :
    SameChange bindings (machine.assign statement)
      ((machine.rebind bindings).assign (statement.mapTokens rename)) := by
  have hmap : (machine.rebind bindings).assign (statement.mapTokens rename) =
      (machine.assign statement).map (·.rebind bindings) := by
    simp only [Machine.assign, hrenames.targetName,
      Statement.expression_mapTokens, hrenames.evaluate]
    change (machine.lookup _ >>= _) = _
    cases machine.lookup (machine.targetName statement) with
    | error fault => rfl
    | ok held =>
        simp only [bind, Except.bind]
        split
        · rfl
        · cases machine.evaluate statement.expression
            (some held.value.kind) <;> rfl
  exact hmap ▸ .of_map _

/-- The elements of a declared array are the same, or both sources are no
arrays.  The name of such a source is not the same. -/
theorem initialElements (hrenames : Renames rename machine bindings)
    (expression : Expression) :
    (machine.rebind bindings).initialElements
        (expression.mapTokens rename) = machine.initialElements expression ∨
      ∃ left right,
        machine.initialElements expression = .error (.notAnArray left) ∧
        (machine.rebind bindings).initialElements
          (expression.mapTokens rename) = .error (.notAnArray right) := by
  have hresolve : (machine.rebind bindings).resolve ∘ rename =
      machine.resolve := funext hrenames.resolve
  simp only [Machine.initialElements, hrenames.operands, List.map_map,
    hresolve]
  simp only [Expression.mapTokens, hrenames.token, hrenames.arrayElement]
  split
  · cases machine.arrayElement expression.middle expression.right with
    | error fault => exact Or.inl rfl
    | ok element =>
        cases element with
        | array elements => exact Or.inl rfl
        | _ => exact Or.inr ⟨_, _, rfl, rfl⟩
  · exact Or.inl rfl

theorem declareArray (hrenames : Renames rename machine bindings)
    (statement : Statement) :
    SameChange bindings (machine.declareArray statement)
      ((machine.rebind bindings).declareArray
        (statement.mapTokens rename)) := by
  simp only [Machine.declareArray, hrenames.targetName,
    Statement.expression_mapTokens]
  change SameChange bindings _
    (if machine.store.contains _ = true then _ else _)
  split
  · exact .ok machine
  · rcases hrenames.initialElements statement.expression with
      hsame | ⟨left, right, hleft, hright⟩
    · rw [hsame]
      cases machine.initialElements statement.expression with
      | error fault => exact .error (.same fault)
      | ok initial => exact .ok _
    · rw [hleft, hright]
      exact .error (.notAnArray left right)

theorem appendElement (hrenames : Renames rename machine bindings)
    (statement : Statement) :
    SameChange bindings (machine.appendElement statement)
      ((machine.rebind bindings).appendElement
        (statement.mapTokens rename)) := by
  have hmap : (machine.rebind bindings).appendElement
      (statement.mapTokens rename) =
        (machine.appendElement statement).map (·.rebind bindings) := by
    simp only [Machine.appendElement, Statement.expression_mapTokens,
      Expression.mapTokens, hrenames.token, hrenames.resolve]
    change (machine.changeElements _ _ >>= _) = _
    cases machine.changeElements _ _ <;> rfl
  exact hmap ▸ .of_map _

theorem setElement (hrenames : Renames rename machine bindings)
    (statement : Statement) :
    SameChange bindings (machine.setElement statement)
      ((machine.rebind bindings).setElement
        (statement.mapTokens rename)) := by
  have hmap : (machine.rebind bindings).setElement
      (statement.mapTokens rename) =
        (machine.setElement statement).map (·.rebind bindings) := by
    simp only [Machine.setElement, Statement.expression_mapTokens,
      Expression.mapTokens, hrenames.token, hrenames.resolve,
      hrenames.resolveIndex]
    cases machine.resolveIndex statement.expression.middle with
    | error fault => rfl
    | ok index =>
        change (machine.changeElements _ _ >>= _) =
          (machine.changeElements _ _ >>= _).map _
        cases machine.changeElements _ _ <;> rfl
  exact hmap ▸ .of_map _

theorem removeElements (hrenames : Renames rename machine bindings)
    (statement : Statement) :
    SameChange bindings (machine.removeElements statement)
      ((machine.rebind bindings).removeElements
        (statement.mapTokens rename)) := by
  have hmap : (machine.rebind bindings).removeElements
      (statement.mapTokens rename) =
        (machine.removeElements statement).map (·.rebind bindings) := by
    simp only [Machine.removeElements, Statement.expression_mapTokens,
      Expression.mapTokens, hrenames.token, hrenames.resolve]
    change (machine.changeElements _ _ >>= _) =
      (machine.changeElements _ _ >>= _).map _
    cases machine.changeElements _ _ <;> rfl
  exact hmap ▸ .of_map _

theorem print (hrenames : Renames rename machine bindings)
    (statement : Statement) :
    SameEffect bindings (machine.print statement)
      ((machine.rebind bindings).print (statement.mapTokens rename)) := by
  have hpiece : (machine.rebind bindings).printPiece ∘ rename =
      machine.printPiece := funext hrenames.printPiece
  have hwrites : (machine.rebind bindings).statementWrites
      (statement.mapTokens rename) = machine.statementWrites statement := by
    simp only [statementWrites, Statement.operands,
      Statement.expression_mapTokens, hrenames.operands, List.map_map, hpiece,
      Statement.kind_mapTokens]
  simp only [Machine.print, hwrites]
  exact .of_rebind _

theorem readInto (hrenames : Renames rename machine bindings)
    (kind : StatementKind) (token : String) :
    (machine.rebind bindings).readInto kind (rename token) =
      ((machine.readInto kind token).1,
        (machine.readInto kind token).2.rebind bindings) := by
  simp only [Machine.readInto, hrenames.token]
  simp only [rebind]
  by_cases hname : machine.store.contains (machine.substitute token) = true
  · simp only [hname, Bool.not_true, Bool.false_eq_true, if_false]
    cases machine.output.flush with
    | error fault => rfl
    | ok _ =>
        rcases machine.input.nextWord with ⟨_ | (_ | word), input⟩
        · rfl
        · rfl
        · simp only
          cases readNumber kind word <;> rfl
  · simp [hname]

theorem readAll (hrenames : Renames rename machine bindings)
    (kind : StatementKind) (tokens : List String) :
    (machine.rebind bindings).readAll kind (tokens.map rename) =
      ((machine.readAll kind tokens).1,
        (machine.readAll kind tokens).2.rebind bindings) := by
  induction tokens generalizing machine with
  | nil => rfl
  | cons token later ih =>
      have heffect := readInto_effect machine kind token
      simp only [List.map_cons, Machine.readAll, hrenames.readInto]
      rcases hread : machine.readInto kind token with ⟨_ | _, after⟩
      · rfl
      · rw [hread] at heffect
        exact ih (hrenames.of_bindings_eq heffect.bindings)

theorem read (hrenames : Renames rename machine bindings)
    (statement : Statement) :
    SameEffect bindings (machine.read statement)
      ((machine.rebind bindings).read (statement.mapTokens rename)) := by
  simp only [Machine.read, Statement.kind_mapTokens, Statement.operands,
    Statement.expression_mapTokens, hrenames.operands, hrenames.readAll]
  split
  · exact .of_rebind _
  · exact .ok machine

end Renames

theorem Renames.perform {rename : String → String} {machine : Machine}
    {bindings : List Bindings} (hrenames : Renames rename machine bindings)
    (statement : Statement) (handler : Handler)
    (hdefine : rename = id ∨ handler ≠ .define) :
    SameEffect bindings (machine.perform statement handler)
      ((machine.rebind bindings).perform (statement.mapTokens rename)
        handler) := by
  cases handler with
  | declare => exact (hrenames.declare statement).commit
  | arrayDeclare => exact (hrenames.declareArray statement).commit
  | arrayAppend => exact (hrenames.appendElement statement).commit
  | arraySet => exact (hrenames.setElement statement).commit
  | arrayPop => exact (hrenames.removeElements statement).commit
  | assign => exact (hrenames.assign statement).commit
  | print => exact hrenames.print statement
  | read => exact hrenames.read statement
  | define =>
      rcases hdefine with rfl | hdefine
      · rw [Statement.mapTokens_id]
        simp only [Machine.perform, Machine.define]
        cases statement.target? with
        | none => exact .ok machine
        | some name => exact .ok _
      · contradiction
  | block | call | leave => exact .ok machine

end Machine

end LineScript
