/-
The store after any history.  Blocks are entered and left, names are declared and
variables are written to, in any order, on a store that was empty at first.  The
frames never have a name in common and stay in the order of their names, because
a declaration is refused for a name that some frame has.  So look-up, listing and
counting, which walk over the frames in different ways, always agree.
-/
import Mathlib.Data.List.Nodup
import LineScript.Proofs.StoreEdit

namespace LineScript

/-- What can be done to a store.  A write may change a variable in any way. -/
inductive StoreOperation
  | enter
  | exit
  | declare (name : String) (fresh : Variable)
  | write (name : String) (change : Variable → Variable)

namespace Frame

theorem perm_insert (name : String) (fresh : Variable) (frame : Frame) :
    (frame.insert name fresh).Perm ((name, fresh) :: frame) := by
  induction frame with
  | nil => exact List.Perm.refl _
  | cons entry later ih =>
      obtain ⟨other, held⟩ := entry
      by_cases hbefore : name < other
      · simp [insert, hbefore]
      · simp only [insert, hbefore, if_false]
        exact (ih.cons _).trans (List.Perm.swap _ _ _)

theorem names_perm_insert (name : String) (fresh : Variable) (frame : Frame) :
    (frame.insert name fresh).names.Perm (name :: frame.names) :=
  (perm_insert name fresh frame).map Prod.fst

theorem sorted_insert {name : String} {frame : Frame}
    (hsorted : frame.names.Pairwise (· < ·)) (habsent : name ∉ frame.names)
    (fresh : Variable) :
    (frame.insert name fresh).names.Pairwise (· < ·) := by
  induction frame with
  | nil => simp [insert, names]
  | cons entry later ih =>
      obtain ⟨other, held⟩ := entry
      have hcons : other :: names later = names ((other, held) :: later) := rfl
      rw [← hcons] at hsorted habsent
      obtain ⟨hfirst, hlater⟩ := List.pairwise_cons.mp hsorted
      rw [List.mem_cons, not_or] at habsent
      by_cases hbefore : name < other
      · simp only [insert, hbefore, if_true]
        refine List.pairwise_cons.mpr ⟨?_, hsorted⟩
        intro next hnext
        rcases List.mem_cons.mp hnext with rfl | hnext
        · exact hbefore
        · exact String.lt_trans hbefore (hfirst next hnext)
      · simp only [insert, hbefore, if_false]
        refine List.pairwise_cons.mpr ⟨?_, ih hlater habsent.2⟩
        intro next hnext
        rcases mem_names_insert.mp hnext with rfl | hnext
        · by_contra hafter
          exact habsent.1 (String.le_antisymm (String.not_lt.mp hafter)
            (String.not_lt.mp hbefore))
        · exact hfirst next hnext

/-- Entries put in the order of their names, one after another. -/
def arranged (entries : Frame) : Frame :=
  entries.foldr (fun (name, held) => insert name held) []

theorem perm_arranged (entries : Frame) : entries.arranged.Perm entries := by
  induction entries with
  | nil => exact List.Perm.refl _
  | cons entry later ih =>
      exact (perm_insert entry.1 entry.2 _).trans (ih.cons entry)

theorem sorted_arranged {entries : Frame} (hnodup : entries.names.Nodup) :
    entries.arranged.names.Pairwise (· < ·) := by
  induction entries with
  | nil => exact .nil
  | cons entry later ih =>
      obtain ⟨hfirst, hlater⟩ := List.nodup_cons.mp hnodup
      apply sorted_insert (ih hlater)
      intro hmem
      exact hfirst (((perm_arranged later).map Prod.fst).mem_iff.mp hmem)

/-- In a frame without repeated names, a look-up finds what the frame holds. -/
theorem get?_eq_some_iff {frame : Frame} (hnodup : frame.names.Nodup)
    {name : String} {held : Variable} :
    frame.get? name = some held ↔ (name, held) ∈ frame := by
  induction frame with
  | nil => simp [get?]
  | cons entry later ih =>
      obtain ⟨other, found⟩ := entry
      have hcons : names ((other, found) :: later) = other :: names later := rfl
      rw [hcons, List.nodup_cons] at hnodup
      rw [get?_cons, List.mem_cons, Prod.mk.injEq]
      by_cases hname : name = other
      · subst hname
        have habsent : (name, held) ∉ later := by
          intro hmem
          exact hnodup.1 (List.mem_map_of_mem hmem)
        simp [habsent, eq_comm]
      · simp [hname, ih hnodup.2]

end Frame

namespace Store

/-- The store after an operation. -/
def apply (store : Store) : StoreOperation → Store
  | .enter => store.enter
  | .exit => store.exit.2
  | .declare name fresh => store.declare name fresh
  | .write name change => store.modify name change

/-- The store after some operations. -/
def applyAll (store : Store) (operations : List StoreOperation) : Store :=
  operations.foldl apply store

/-- The store after some operations on the empty store. -/
def after (operations : List StoreOperation) : Store :=
  applyAll {} operations

/-- The variables of all frames, from the innermost one to the global one. -/
def entries (store : Store) : Frame :=
  store.frames.flatten

theorem names_entries (store : Store) :
    store.entries.names = store.frameNames.flatten :=
  List.map_flatten

theorem get?_eq_entries (store : Store) (name : String) :
    store.get? name = store.entries.get? name := by
  rw [get?, entries]
  induction store.frames with
  | nil => rfl
  | cons frame below ih =>
      rw [List.findSome?_cons, List.flatten_cons, ih, Frame.get?, Frame.get?,
        Frame.get?, List.lookup_append]
      cases frame.lookup name <;> rfl

theorem get?_eq_none_iff {store : Store} {name : String} :
    store.get? name = none ↔ ∀ frame ∈ store.frames, name ∉ frame.names := by
  simp [get?, Frame.get?_eq_none_iff]

/-- A declaration adds one entry. -/
theorem entries_of_declare? {store after : Store} {name : String}
    {fresh : Variable} (hdeclare : store.declare? name fresh = some after) :
    after.entries.Perm ((name, fresh) :: store.entries) := by
  obtain ⟨_, rfl⟩ := declare?_eq_some_iff.mp hdeclare
  exact (Frame.perm_insert name fresh store.innermost).append_right _

theorem names_entries_modify (store : Store) (name : String)
    (change : Variable → Variable) :
    (store.modify name change).entries.names = store.entries.names := by
  rw [names_entries, names_entries, frameNames_modify]

/-- Leaving a block drops the entries of its frame, unless it is the global
one. -/
theorem frames_exit (store : Store) :
    store.exit.2.frames <:+ store.frames := by
  unfold exit
  split
  · exact List.suffix_rfl
  · next below outer houter =>
    rw [frames, frames, houter]
    exact List.suffix_cons _ _

/-- The frames have no name in common, and each is in the order of its names. -/
structure Sound (store : Store) : Prop where
  distinct : store.entries.names.Nodup
  sorted : ∀ frame ∈ store.frames, frame.names.Pairwise (· < ·)

namespace Sound

theorem empty : Sound {} where
  distinct := List.nodup_nil
  sorted := by
    intro frame hframe
    rw [frames, List.mem_singleton] at hframe
    subst hframe
    exact .nil

theorem enter {store : Store} (hsound : store.Sound) : store.enter.Sound where
  distinct := hsound.distinct
  sorted := by
    intro frame hframe
    rcases List.mem_cons.mp hframe with rfl | hframe
    · exact .nil
    · exact hsound.sorted frame hframe

theorem exit {store : Store} (hsound : store.Sound) : store.exit.2.Sound where
  distinct := by
    obtain ⟨front, hfront⟩ := frames_exit store
    have hnames : store.entries.names =
        Frame.names front.flatten ++ store.exit.2.entries.names := by
      rw [entries, ← hfront, List.flatten_append]
      exact List.map_append
    have hdistinct := hsound.distinct
    rw [hnames] at hdistinct
    exact hdistinct.of_append_right
  sorted := by
    intro frame hframe
    exact hsound.sorted frame ((frames_exit store).subset hframe)

theorem declare {store : Store} (hsound : store.Sound) (name : String)
    (fresh : Variable) : (store.declare name fresh).Sound := by
  unfold Store.declare
  cases hdeclare : store.declare? name fresh with
  | none => exact hsound
  | some after =>
      have hentries := entries_of_declare? hdeclare
      obtain ⟨habsent, rfl⟩ := declare?_eq_some_iff.mp hdeclare
      rw [contains_eq_false_iff] at habsent
      constructor
      · have hnew : name ∉ store.entries.names := by
          rw [← Frame.get?_eq_none_iff, ← get?_eq_entries]
          exact habsent
        have hnames := hentries.map Prod.fst
        exact hnames.nodup_iff.mpr (List.nodup_cons.mpr ⟨hnew, hsound.distinct⟩)
      · intro frame hframe
        rcases List.mem_cons.mp hframe with rfl | hframe
        · apply Frame.sorted_insert
          · exact hsound.sorted _ List.mem_cons_self
          · exact get?_eq_none_iff.mp habsent _ List.mem_cons_self
        · exact hsound.sorted frame (List.mem_cons_of_mem _ hframe)

theorem modify {store : Store} (hsound : store.Sound) (name : String)
    (change : Variable → Variable) : (store.modify name change).Sound where
  distinct := by
    rw [names_entries_modify]
    exact hsound.distinct
  sorted := by
    intro frame hframe
    have hnames : frame.names ∈ (store.modify name change).frameNames :=
      List.mem_map_of_mem hframe
    rw [frameNames_modify] at hnames
    obtain ⟨before, hbefore, hsame⟩ := List.mem_map.mp hnames
    rw [← hsame]
    exact hsound.sorted before hbefore

theorem apply {store : Store} (hsound : store.Sound)
    (operation : StoreOperation) : (store.apply operation).Sound := by
  cases operation with
  | enter => exact hsound.enter
  | exit => exact hsound.exit
  | declare name fresh => exact hsound.declare name fresh
  | write name change => exact hsound.modify name change

theorem applyAll {store : Store} (hsound : store.Sound)
    (operations : List StoreOperation) :
    (store.applyAll operations).Sound := by
  induction operations generalizing store with
  | nil => exact hsound
  | cons operation later ih => exact ih (hsound.apply operation)

theorem after (operations : List StoreOperation) :
    (Store.after operations).Sound :=
  empty.applyAll operations

end Sound

theorem snapshot_eq_arranged (store : Store) :
    store.snapshot = store.entries.arranged :=
  rfl

/-- A look-up finds exactly what the listing shows. -/
theorem Sound.get?_eq_some_iff {store : Store} (hsound : store.Sound)
    {name : String} {held : Variable} :
    store.get? name = some held ↔ (name, held) ∈ store.snapshot := by
  rw [get?_eq_entries, Frame.get?_eq_some_iff hsound.distinct,
    snapshot_eq_arranged, (Frame.perm_arranged store.entries).mem_iff]

theorem Sound.frames_apart {store : Store} (hsound : store.Sound) :
    store.frames.Pairwise fun inner outer =>
      ∀ name ∈ inner.names, name ∉ outer.names := by
  have hdistinct := hsound.distinct
  rw [names_entries, List.nodup_flatten] at hdistinct
  have hpairs := hdistinct.2
  rw [frameNames, List.pairwise_map] at hpairs
  refine hpairs.imp ?_
  intro inner outer hdisjoint name hinner houter
  exact hdisjoint hinner houter

theorem isSome_declare?_iff {store : Store} {name : String}
    {fresh : Variable} :
    (store.declare? name fresh).isSome = true ↔
      ∀ frame ∈ store.frames, name ∉ frame.names := by
  rw [← get?_eq_none_iff, ← contains_eq_false_iff, declare?]
  by_cases hcontains : store.contains name = true
  · simp [hcontains]
  · simp [hcontains]

/-- After any operations on the empty store there is a frame, no two frames have
a name in common, and the listing is in strict order, as long as the count says
and in agreement with look-up.  A declaration succeeds for just the names that no
frame has, and a declaration or a write changes look-up at its own name only; a
write neither adds a name nor takes one away. -/
theorem store_consistent_after (operations : List StoreOperation) :
    let store := after operations
    store.frames ≠ [] ∧
    (store.frames.Pairwise fun inner outer =>
      ∀ name ∈ inner.names, name ∉ outer.names) ∧
    (store.snapshot.map Prod.fst).Pairwise (· < ·) ∧
    store.snapshot.length = store.size ∧
    (∀ name held,
      store.get? name = some held ↔ (name, held) ∈ store.snapshot) ∧
    (∀ name fresh,
      ((store.declare? name fresh).isSome = true ↔
        ∀ frame ∈ store.frames, name ∉ frame.names) ∧
      ∀ declared, store.declare? name fresh = some declared →
        declared.get? name = some fresh ∧
        ∀ other, other ≠ name → declared.get? other = store.get? other) ∧
    (∀ name change,
      (store.modify name change).get? name = (store.get? name).map change ∧
      ∀ other, other ≠ name →
        (store.modify name change).get? other = store.get? other) := by
  intro store
  have hsound : store.Sound := Sound.after operations
  refine ⟨List.cons_ne_nil _ _, hsound.frames_apart,
    Frame.sorted_arranged hsound.distinct,
    (Frame.perm_arranged store.entries).length_eq,
    fun _ _ => hsound.get?_eq_some_iff, ?_, ?_⟩
  · intro name fresh
    refine ⟨isSome_declare?_iff, ?_⟩
    intro declared hdeclare
    have hget := get?_of_declare? hdeclare
    refine ⟨by rw [hget, if_pos rfl], ?_⟩
    intro other hother
    rw [hget, if_neg hother]
  · intro name change
    refine ⟨by rw [get?_modify, if_pos rfl], ?_⟩
    intro other hother
    rw [get?_modify, if_neg hother]

/-- A block with a name of its own, in which a name of its surroundings cannot
be declared again. -/
def blockHistory : List StoreOperation :=
  [.declare "x" ⟨.bool true, false⟩, .enter, .declare "b" ⟨.absent, true⟩,
    .declare "x" ⟨.absent, true⟩]

theorem blockHistory_declares_once :
    ∃ declared,
      (after blockHistory).declare? "a" ⟨.absent, false⟩ = some declared ∧
      declared.get? "a" = some ⟨.absent, false⟩ ∧
      declared.get? "x" = some ⟨.bool true, false⟩ ∧
      ¬ (declared.declare? "b" ⟨.absent, false⟩).isSome = true := by
  obtain ⟨_, _, _, _, _, hdeclare, _⟩ := store_consistent_after blockHistory
  obtain ⟨hname, hothers⟩ := (hdeclare "a" ⟨.absent, false⟩).2 _ rfl
  exact ⟨_, rfl, hname, hothers "x" (by decide), by decide +kernel⟩

end Store

end LineScript
