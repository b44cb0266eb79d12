/-
The stores that programs come to.  Every construct keeps the frames of a store
apart and in the order of their names, so on all machines of a session no two
frames have a name in common, as on the empty store that it starts with.
-/
import LineScript.Proofs.ConstantVariables
import LineScript.Proofs.StoreHistory

namespace LineScript

theorem Store.Sound.of_edits {before after : Store}
    (hsound : before.Sound) (hedits : before.Edits after) : after.Sound := by
  induction hedits with
  | refl => exact hsound
  | @declare between after name fresh _ hdeclare ih =>
      have hafter : between.declare name fresh = after := by
        rw [Store.declare, hdeclare, Option.getD_some]
      exact hafter ▸ ih.declare name fresh
  | write _ _ ih => exact ih.modify _ _

namespace Machine

/-- The store after is sound if the store before was. -/
def KeepsSound (before after : Machine) : Prop :=
  before.store.Sound → after.store.Sound

theorem respected_keepsSound : Respected KeepsSound where
  refl _ := id
  trans hfirst hsecond := hsecond ∘ hfirst
  perform machine statement handler hsound :=
    hsound.of_edits (perform_effect machine statement handler).store
  scope hbody hsound := (hbody hsound.enter).exit
  call hbody := hbody

theorem declareArguments_keepsSound (machine : Machine)
    (arguments : Arguments) :
    KeepsSound machine (machine.declareArguments arguments) :=
  fun hsound => hsound.declare _ _

theorem persists_sound :
    Persists KeepsSound fun machine => machine.store.Sound where
  kept hkeeps hsound := hkeeps hsound
  block hsound := hsound.enter
  call hsound := hsound

/-- However a run ends, a sound store is sound afterwards; and all machines of a
session have sound stores, inside its runs and between them. -/
theorem sessions_have_sound_stores :
    (∀ statements machine outcome, RunsTo statements machine outcome →
      machine.store.Sound → outcome.2.store.Sound) ∧
    (∀ log callLimit input output programs point,
      SessionReaches programs (fresh log callLimit input output) point →
      point.store.Sound) := by
  refine ⟨?_, ?_⟩
  · rintro statements machine outcome ⟨budget, hrun⟩
    exact (respected_keepsSound.holdsWithin budget).statements hrun
  · intro log callLimit input output programs point hreaches
    apply hreaches.holds respected_keepsSound declareArguments_keepsSound
      persists_sound
    exact ⟨Store.Sound.empty.distinct, Store.Sound.empty.sorted⟩

end Machine

end LineScript
