/-
Scopes and calls are balanced.  However a run ends, with any flow or any error at
any depth of blocks and calls, the frames of the store, the bindings and the
count of active calls are those that it started with.  Only the frame that was
innermost at the start may have got new names; blocks and calls leave no name
behind at all.
-/
import LineScript.Proofs.RunRelation
import LineScript.Proofs.StatementEffect

namespace LineScript

namespace Machine

/-- The machine after a run can go on where the machine before it stood. -/
structure Resumes (before after : Machine) : Prop where
  store : before.store.Extends after.store
  bindings : after.bindings = before.bindings
  calls : after.calls = before.calls
  callLimit : after.callLimit = before.callLimit

theorem respected_resumes : Respected Resumes where
  refl machine := ⟨.refl machine.store, rfl, rfl, rfl⟩
  trans hfirst hsecond :=
    ⟨hfirst.store.trans hsecond.store,
      hsecond.bindings.trans hfirst.bindings,
      hsecond.calls.trans hfirst.calls,
      hsecond.callLimit.trans hfirst.callLimit⟩
  perform machine statement handler := by
    have heffect := perform_effect machine statement handler
    exact ⟨.of_edits heffect.store, heffect.bindings, heffect.calls,
      heffect.callLimit⟩
  scope hbody := ⟨hbody.store.exit, hbody.bindings, hbody.calls, hbody.callLimit⟩
  call hbody := by
    refine ⟨hbody.store, ?_, ?_, hbody.callLimit⟩
    · simp [exitCall, hbody.bindings, enterCall]
    · simp [exitCall, hbody.calls, enterCall]

/-- A body that runs in a frame of its own leaves no name behind. -/
theorem frameNames_of_runScoped {budget : Nat} {body : List Statement}
    {machine : Machine} {outcome : Outcome}
    (hrun : runScoped budget body machine = some outcome) :
    outcome.2.store.frameNames = machine.store.frameNames := by
  cases budget with
  | zero => contradiction
  | succ budget =>
      rw [runScoped_succ] at hrun
      obtain ⟨inner, hinner, rfl⟩ := Option.map_eq_some_iff.mp hrun
      have hresumes := (respected_resumes.holdsWithin budget).statements hinner
      exact hresumes.store.frameNames_exit

theorem Rounds.frameNames_eq {statement : Statement} {start point : Machine}
    (hround : Rounds statement start point) :
    point.store.frameNames = start.store.frameNames := by
  induction hround with
  | first => rfl
  | again _ _ _ hbody ih => exact (frameNames_of_runScoped hbody).trans ih

theorem frameNames_of_runBlock {budget : Nat} {statement : Statement}
    {machine : Machine} {outcome : Outcome}
    (hrun : runBlock budget statement machine = some outcome) :
    outcome.2.store.frameNames = machine.store.frameNames := by
  obtain ⟨last, hlast, hend⟩ := Rounds.exists_last .first hrun
  rw [← hlast.frameNames_eq]
  rcases hend with hend | ⟨_, hbody⟩
  · rw [hend]
  · exact frameNames_of_runScoped hbody

theorem frameNames_of_runCall {budget : Nat} {statement : Statement}
    {machine : Machine} {outcome : Outcome}
    (hrun : runCall budget statement machine = some outcome) :
    outcome.2.store.frameNames = machine.store.frameNames := by
  cases budget with
  | zero => contradiction
  | succ budget =>
      rw [runCall_succ] at hrun
      split at hrun
      · obtain rfl := Option.some.inj hrun
        rfl
      · obtain ⟨inner, hinner, rfl⟩ := Option.map_eq_some_iff.mp hrun
        have hnames := frameNames_of_runScoped hinner
        exact hnames

theorem frameNames_of_runStatement {budget : Nat} {statement : Statement}
    {machine : Machine} {outcome : Outcome}
    (hhandler : statement.kind.handler? = some .block ∨
      statement.kind.handler? = some .call)
    (hrun : runStatement budget statement machine = some outcome) :
    outcome.2.store.frameNames = machine.store.frameNames := by
  cases budget with
  | zero => contradiction
  | succ budget =>
      rw [runStatement_succ] at hrun
      rcases hhandler with hblock | hcall
      · rw [hblock] at hrun
        obtain ⟨inner, hinner, rfl⟩ := Option.map_eq_some_iff.mp hrun
        have hnames := frameNames_of_runBlock hinner
        exact hnames
      · rw [hcall] at hrun
        obtain ⟨inner, hinner, rfl⟩ := Option.map_eq_some_iff.mp hrun
        have hnames := frameNames_of_runCall hinner
        exact hnames

/-- However a run ends, it has restored the block depth, the bindings and the
count of calls; the outer frames have their names and the innermost frame has at
least its own.  Blocks and calls leave the names of all frames as they were, and
so does every round of a loop. -/
theorem run_restores_scopes :
    (∀ statements machine outcome, RunsTo statements machine outcome →
      outcome.2.store.depth = machine.store.depth ∧
      outcome.2.bindings = machine.bindings ∧
      outcome.2.calls = machine.calls ∧
      outcome.2.store.outer.map Frame.names =
        machine.store.outer.map Frame.names ∧
      machine.store.innermost.names.Sublist
        outcome.2.store.innermost.names) ∧
    (∀ statement machine,
      statement.kind ∈ [.branch, .otherwise, .loop, .call] →
      (∀ budget outcome,
        runStatement budget statement machine = some outcome →
        outcome.2.store.frameNames = machine.store.frameNames) ∧
      ∀ point, Rounds statement machine point →
        point.store.frameNames = machine.store.frameNames) := by
  constructor
  · intro statements machine outcome hruns
    obtain ⟨budget, hrun⟩ := hruns
    have hresumes := (respected_resumes.holdsWithin budget).statements hrun
    exact ⟨hresumes.store.depth_eq, hresumes.bindings, hresumes.calls,
      hresumes.store.outer, hresumes.store.innermost⟩
  · intro statement machine hkind
    have hhandler : statement.kind.handler? = some .block ∨
        statement.kind.handler? = some .call := by
      simp only [List.mem_cons, List.not_mem_nil, or_false] at hkind
      rcases hkind with hkind | hkind | hkind | hkind
      · exact Or.inl (by rw [hkind]; rfl)
      · exact Or.inl (by rw [hkind]; rfl)
      · exact Or.inl (by rw [hkind]; rfl)
      · exact Or.inr (by rw [hkind]; rfl)
    constructor
    · intro budget outcome hrun
      exact frameNames_of_runStatement hhandler hrun
    · intro point hround
      exact hround.frameNames_eq

/-- A loop that declares a variable and then assigns to one that is not
there. -/
def failingLoop : Statement where
  kind := .loop
  line := ["while", "true", "\x7b"]
  lineNo := 1
  expression := { left := "true" }
  body :=
    [{ kind := .declare, line := ["var", "y", "=", "1"], lineNo := 2,
       expression := { left := "1" } },
      { kind := .assign, line := ["z", "=", "2"], lineNo := 3,
        expression := { left := "2" } }]

/-- A machine inside a call, with a variable in the frame of the call. -/
def insideCall : Machine where
  store := { innermost := [("x", ⟨.bool true, false⟩)], outer := [[]] }
  bindings := [[("p", "x")]]
  calls := 1

theorem failingLoop_restores_scopes :
    ∃ after, RunsTo [failingLoop] insideCall
        (.error ⟨.undefinedVariable "z", some 3⟩, after) ∧
      after.store.depth = 1 ∧ after.bindings = [[("p", "x")]] ∧
      after.calls = 1 ∧ after.store.frameNames = [["x"], []] := by
  let after : Machine := { insideCall with
    store := { insideCall.store with
      log := #[.entering 2, .evicting "y" 2] } }
  have hruns : RunsTo [failingLoop] insideCall
      (.error ⟨.undefinedVariable "z", some 3⟩, after) := ⟨9, rfl⟩
  obtain ⟨hdepth, hbindings, hcalls, _⟩ := run_restores_scopes.1 _ _ _ hruns
  have hnames := (run_restores_scopes.2 failingLoop insideCall (by decide)).1
    8 (.error ⟨.undefinedVariable "z", some 3⟩, after) rfl
  exact ⟨after, hruns, hdepth, hbindings, hcalls, hnames⟩

end Machine

end LineScript
