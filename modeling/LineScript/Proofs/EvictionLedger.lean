/-
Every name of a block is evicted exactly once.  A successful declaration opens an
entry in a ledger: a name at a depth.  At any time an entry is either pending, in
a frame of the store, or evicted, in the log of scope events, and no operation
loses or doubles one.  Leaving a block evicts what was declared in it since it was
entered; once all blocks are left, everything declared in a block is in the log.
-/
import Mathlib.Data.List.Count
import Mathlib.Data.List.Induction
import LineScript.Proofs.ScopeMessages
import LineScript.Proofs.StoreHistory

namespace LineScript

/-- The name and the depth of an eviction. -/
def ScopeEvent.eviction? : ScopeEvent → Option (String × Nat)
  | .entering _ => none
  | .evicting name depth => some (name, depth)

namespace Store

/-- The evictions in the log. -/
def evicted (store : Store) : List (String × Nat) :=
  store.log.toList.filterMap ScopeEvent.eviction?

/-- The names of frames, with the depths that the frames have. -/
def pendingIn : List Frame → List (String × Nat)
  | [] => []
  | frame :: below =>
    frame.names.map (fun name => (name, below.length)) ++ pendingIn below

/-- The names in the store, with the depths they were declared at. -/
def pending (store : Store) : List (String × Nat) :=
  pendingIn store.frames

/-- The entry that an operation opens: a name that it declares, with the depth. -/
def declaredBy (store : Store) : StoreOperation → List (String × Nat)
  | .declare name fresh =>
    if (store.declare? name fresh).isSome then [(name, store.depth)] else []
  | .enter | .exit | .write _ _ => []

/-- The declarations that succeed in the course of some operations, with the
depths they are made at. -/
def declared (store : Store) : List StoreOperation → List (String × Nat)
  | [] => []
  | operation :: later =>
    store.declaredBy operation ++ (store.apply operation).declared later

/-- The names of the innermost frame, with its depth. -/
def innermostPending (store : Store) : List (String × Nat) :=
  store.innermost.names.map fun name => (name, store.depth)

theorem pending_eq_append (store : Store) :
    store.pending = store.innermostPending ++ pendingIn store.outer :=
  rfl

theorem pendingIn_modify (frames : List Frame) (name : String)
    (change : Variable → Variable) :
    pendingIn (frames.map fun frame => frame.modify name change) =
      pendingIn frames := by
  induction frames with
  | nil => rfl
  | cons frame below ih =>
      simp only [List.map_cons, pendingIn, Frame.names_modify, List.length_map,
        ih]

theorem evicted_enter (store : Store) :
    store.enter.evicted = store.evicted := by
  simp [evicted, enter, ScopeEvent.eviction?]

theorem exit_of_outer_eq_nil {store : Store} (houter : store.outer = []) :
    store.exit = ([], store) := by
  simp [exit, houter]

theorem evicted_exit {store : Store} (houter : store.outer ≠ []) :
    store.exit.2.evicted = store.evicted ++ store.innermostPending := by
  cases hcase : store.outer with
  | nil => contradiction
  | cons below rest =>
      have hevents : (store.innermost.names.map fun name =>
          ScopeEvent.evicting name store.depth).filterMap ScopeEvent.eviction? =
            store.innermostPending := by
        rw [List.filterMap_map]
        exact congrFun List.filterMap_eq_map _
      simp only [evicted, exit, hcase, Array.toList_appendList,
        List.filterMap_append, hevents]

theorem pending_exit {store : Store} (houter : store.outer ≠ []) :
    store.exit.2.pending = pendingIn store.outer := by
  cases hcase : store.outer with
  | nil => contradiction
  | cons below rest => simp only [pending, exit, hcase, frames]

/-- Whether it succeeds or not, a declaration touches the innermost frame only. -/
theorem exists_declare_eq (store : Store) (name : String) (fresh : Variable) :
    ∃ innermost, store.declare name fresh = { store with innermost } := by
  cases hdeclare : store.declare? name fresh with
  | none => exact ⟨store.innermost, by rw [declare, hdeclare]; rfl⟩
  | some after =>
      obtain ⟨_, rfl⟩ := declare?_eq_some_iff.mp hdeclare
      exact ⟨store.innermost.insert name fresh, by rw [declare, hdeclare]; rfl⟩

theorem evicted_declare (store : Store) (name : String) (fresh : Variable) :
    (store.declare name fresh).evicted = store.evicted := by
  obtain ⟨innermost, hdeclare⟩ := exists_declare_eq store name fresh
  rw [hdeclare]
  rfl

/-- A declaration opens one entry at the current depth. -/
theorem pending_of_declare? {store after : Store} {name : String}
    {fresh : Variable} (hdeclare : store.declare? name fresh = some after) :
    after.pending.Perm ((name, store.depth) :: store.pending) := by
  obtain ⟨_, rfl⟩ := declare?_eq_some_iff.mp hdeclare
  have hnames := (Frame.names_perm_insert name fresh store.innermost).map
    fun other => (other, store.depth)
  exact hnames.append_right _

/-- An operation closes entries only by evicting them, and opens those of the
names it declares. -/
theorem apply_ledger (store : Store) (operation : StoreOperation) :
    ((store.apply operation).evicted ++ (store.apply operation).pending).Perm
      (store.evicted ++ store.pending ++ store.declaredBy operation) := by
  cases operation with
  | enter =>
      have hpending : store.enter.pending = store.pending := rfl
      rw [apply, declaredBy, evicted_enter, hpending, List.append_nil]
  | exit =>
      rw [apply, declaredBy, List.append_nil]
      by_cases houter : store.outer = []
      · rw [exit_of_outer_eq_nil houter]
      · rw [evicted_exit houter, pending_exit houter, pending_eq_append store,
          List.append_assoc]
  | declare name fresh =>
      rw [apply, declaredBy, evicted_declare, declare]
      cases hdeclare : store.declare? name fresh with
      | none => simp
      | some after =>
          have hpending := (pending_of_declare? hdeclare).append_left
            store.evicted
          simp only [Option.getD_some, Option.isSome_some, if_true]
          exact hpending.trans
            (List.perm_middle.trans (List.perm_append_singleton _ _).symm)
  | write name change =>
      have hpending : (store.modify name change).pending = store.pending :=
        pendingIn_modify store.frames name change
      have hevicted : (store.modify name change).evicted = store.evicted := rfl
      rw [apply, declaredBy, hpending, hevicted, List.append_nil]

theorem applyAll_ledger (store : Store) (operations : List StoreOperation) :
    ((store.applyAll operations).evicted ++
        (store.applyAll operations).pending).Perm
      (store.evicted ++ store.pending ++ store.declared operations) := by
  induction operations generalizing store with
  | nil => simp [applyAll, declared]
  | cons operation later ih =>
      have hstep := apply_ledger store operation
      have hlater := ih (store.apply operation)
      rw [declared, ← List.append_assoc]
      exact hlater.trans (hstep.append_right _)

/-- A pending name is in the frame that has as many frames below it as its depth
says. -/
theorem exists_of_mem_pendingIn {frames : List Frame} {name : String}
    {depth : Nat} (hmem : (name, depth) ∈ pendingIn frames) :
    ∃ above frame below, frames = above ++ frame :: below ∧
      below.length = depth ∧ name ∈ frame.names := by
  induction frames with
  | nil => contradiction
  | cons frame below ih =>
      rw [pendingIn, List.mem_append, List.mem_map] at hmem
      rcases hmem with ⟨other, hother, heq⟩ | hbelow
      · obtain ⟨rfl, hdepth⟩ := Prod.mk.inj heq
        exact ⟨[], frame, below, rfl, hdepth, hother⟩
      · obtain ⟨above, found, under, rfl, hdepth, hname⟩ := ih hbelow
        exact ⟨frame :: above, found, under, rfl, hdepth, hname⟩

theorem lt_length_of_mem_pendingIn {frames : List Frame} {name : String}
    {depth : Nat} (hmem : (name, depth) ∈ pendingIn frames) :
    depth < frames.length := by
  obtain ⟨above, frame, below, rfl, hdepth, _⟩ := exists_of_mem_pendingIn hmem
  simp only [List.length_append, List.length_cons]
  omega

theorem le_depth_of_mem_pending {store : Store} {name : String} {depth : Nat}
    (hmem : (name, depth) ∈ store.pending) : depth ≤ store.depth :=
  Nat.le_of_lt_succ (lt_length_of_mem_pendingIn hmem)

/-- What is pending at the current depth is in the innermost frame. -/
theorem mem_pending_depth_iff {store : Store} {name : String} :
    (name, store.depth) ∈ store.pending ↔ name ∈ store.innermost.names := by
  have houter : (name, store.depth) ∉ pendingIn store.outer := by
    intro hmem
    exact Nat.lt_irrefl _ (lt_length_of_mem_pendingIn hmem)
  rw [pending_eq_append, List.mem_append, innermostPending, List.mem_map]
  simp [houter]

theorem contains_of_mem_pending {store : Store} {name : String} {depth : Nat}
    (hmem : (name, depth) ∈ store.pending) : store.contains name = true := by
  obtain ⟨above, frame, below, hframes, _, hname⟩ :=
    exists_of_mem_pendingIn hmem
  have hframe : frame ∈ store.frames := by simp [hframes]
  by_contra habsent
  rw [Bool.not_eq_true, contains_eq_false_iff, get?_eq_none_iff] at habsent
  exact habsent frame hframe hname

theorem depth_exit (store : Store) :
    store.exit.2.depth = store.depth - 1 := by
  cases houter : store.outer with
  | nil => simp [exit, depth, houter]
  | cons below rest => simp [exit, depth, houter]

theorem depth_declare (store : Store) (name : String) (fresh : Variable) :
    (store.declare name fresh).depth = store.depth := by
  obtain ⟨innermost, hdeclare⟩ := exists_declare_eq store name fresh
  rw [hdeclare]
  rfl

theorem depth_modify (store : Store) (name : String)
    (change : Variable → Variable) :
    (store.modify name change).depth = store.depth := by
  simp [modify, depth]

/-- The names that leaving a block gives back. -/
theorem exit_fst {store : Store} (hdepth : 1 ≤ store.depth) :
    store.exit.1 = store.innermost.names := by
  cases houter : store.outer with
  | nil => simp [depth, houter] at hdepth
  | cons below rest => simp [exit, houter]

/-- While the depth stays at a level or above, nothing is evicted from the frame
at that level. -/
theorem count_evicted_apply {store : Store} {operation : StoreOperation}
    {level : Nat} (hinside : level ≤ (store.apply operation).depth)
    (name : String) :
    (store.apply operation).evicted.count (name, level) =
      store.evicted.count (name, level) := by
  cases operation with
  | enter => rw [apply, evicted_enter]
  | exit =>
      by_cases houter : store.outer = []
      · rw [apply, exit_of_outer_eq_nil houter]
      · have hpositive : 0 < store.depth := List.length_pos_iff.mpr houter
        rw [apply, depth_exit] at hinside
        have hnone : (name, level) ∉ store.innermostPending := by
          rw [innermostPending, List.mem_map]
          rintro ⟨_, _, heq⟩
          -- The frame that is left lies above the level.
          have hlevel : store.depth = level := congrArg Prod.snd heq
          omega
        rw [apply, evicted_exit houter, List.count_append,
          List.count_eq_zero_of_not_mem hnone, Nat.add_zero]
  | declare other fresh => rw [apply, evicted_declare]
  | write other change => rfl

theorem count_evicted_applyAll {store : Store}
    {operations : List StoreOperation} {level : Nat}
    (hinside : ∀ part, part <+: operations →
      level ≤ (store.applyAll part).depth) (name : String) :
    (store.applyAll operations).evicted.count (name, level) =
      store.evicted.count (name, level) := by
  induction operations generalizing store with
  | nil => rfl
  | cons operation later ih =>
      have hfirst : level ≤ (store.apply operation).depth :=
        hinside [operation] (by simp)
      rw [← count_evicted_apply hfirst name]
      apply ih
      intro part hpart
      exact hinside (operation :: part) (List.cons_prefix_cons.mpr ⟨rfl, hpart⟩)

/-- What is pending at a level that has not been left is what was declared at that
level. -/
theorem mem_pending_applyAll_iff {store : Store}
    {operations : List StoreOperation} {level : Nat} {name : String}
    (hinside : ∀ part, part <+: operations →
      level ≤ (store.applyAll part).depth)
    (hnone : (name, level) ∉ store.pending) :
    (name, level) ∈ (store.applyAll operations).pending ↔
      (name, level) ∈ store.declared operations := by
  have hledger := (applyAll_ledger store operations).count_eq (name, level)
  have hevicted := count_evicted_applyAll hinside name
  have hpending := List.count_eq_zero_of_not_mem hnone
  simp only [List.count_append] at hledger
  -- With no evictions and nothing pending at first, the ledger leaves equal counts.
  rw [← List.count_pos_iff, ← List.count_pos_iff]
  omega

/-- Only entering a block makes the store deeper, and only by one. -/
theorem eq_enter_of_depth_lt {store : Store} {operation : StoreOperation}
    (hdeeper : store.depth < (store.apply operation).depth) :
    operation = .enter ∧ (store.apply operation).depth = store.depth + 1 := by
  cases operation with
  | enter => exact ⟨rfl, rfl⟩
  | exit =>
      rw [apply, depth_exit] at hdeeper
      omega
  | declare name fresh =>
      rw [apply, depth_declare] at hdeeper
      omega
  | write name change =>
      rw [apply, depth_modify] at hdeeper
      omega

theorem after_append (before since : List StoreOperation) :
    after (before ++ since) = (after before).applyAll since :=
  List.foldl_append

/-- The operations since the innermost block was entered: it has not been left,
and all blocks that were entered inside it have been. -/
structure SinceEnter (before since : List StoreOperation) : Prop where
  inside : ∀ part, part <+: since →
    (after before).depth < (after (before ++ .enter :: part)).depth
  innermost : (after (before ++ .enter :: since)).depth =
    (after before).depth + 1

/-- Every level of the store was entered at some time and not left since. -/
theorem exists_enter (operations : List StoreOperation) {level : Nat}
    (hpositive : 1 ≤ level) (hlevel : level ≤ (after operations).depth) :
    ∃ before since, operations = before ++ .enter :: since ∧
      (after before).depth + 1 = level ∧
      ∀ part, part <+: since →
        level ≤ (after (before ++ .enter :: part)).depth := by
  -- The induction is on the last operation: a level that was reached before it and
  -- is still there was not left by it, and a new level was entered by it.
  induction operations using List.reverseRecOn with
  | nil =>
      have hempty : (after []).depth = 0 := rfl
      omega
  | append_singleton earlier operation ih =>
      by_cases hearlier : level ≤ (after earlier).depth
      · obtain ⟨before, since, rfl, hdepth, hinside⟩ := ih hearlier
        refine ⟨before, since ++ [operation], by simp, hdepth, ?_⟩
        intro part hpart
        rcases List.prefix_concat_iff.mp hpart with rfl | hpart
        · simpa using hlevel
        · exact hinside part hpart
      · rw [after_append] at hlevel
        have hdeeper : (after earlier).depth <
            ((after earlier).apply operation).depth := by
          exact Nat.lt_of_lt_of_le (Nat.lt_of_not_le hearlier) hlevel
        obtain ⟨rfl, hdepth⟩ := eq_enter_of_depth_lt hdeeper
        have hlast : ((after earlier).applyAll [.enter]).depth =
            (after earlier).depth + 1 := hdepth
        refine ⟨earlier, [], rfl, by omega, ?_⟩
        intro part hpart
        rw [List.prefix_nil.mp hpart, after_append]
        exact hlevel

/-- Leaving a block gives back the names that were declared in it. -/
theorem SinceEnter.mem_exit_iff {before since : List StoreOperation}
    (hsince : SinceEnter before since) (name : String) :
    name ∈ (after (before ++ .enter :: since)).exit.1 ↔
      (name, (after (before ++ .enter :: since)).depth) ∈
        (after (before ++ [.enter])).declared since := by
  have hopened : after (before ++ [.enter]) = (after before).enter :=
    after_append before [.enter]
  have happlied : ∀ part, after (before ++ .enter :: part) =
      (after before).enter.applyAll part := by
    intro part
    exact after_append before (.enter :: part)
  have hinside : ∀ part, part <+: since →
      (after before).depth + 1 ≤ ((after before).enter.applyAll part).depth := by
    intro part hpart
    rw [← happlied]
    exact hsince.inside part hpart
  have hnone : (name, (after before).depth + 1) ∉
      (after before).enter.pending := by
    intro hmem
    have hbefore : (name, (after before).depth + 1) ∈ (after before).pending :=
      hmem
    have hdepth := le_depth_of_mem_pending hbefore
    omega
  have hinnermost := hsince.innermost
  have hpending := mem_pending_applyAll_iff hinside hnone
  rw [← happlied, ← hinnermost, mem_pending_depth_iff] at hpending
  rw [exit_fst (by omega), hpending, hopened]

theorem exists_sinceEnter {operations : List StoreOperation}
    (hdepth : 1 ≤ (after operations).depth) :
    ∃ before since, operations = before ++ .enter :: since ∧
      SinceEnter before since := by
  obtain ⟨before, since, hoperations, hlevel, hinside⟩ :=
    exists_enter operations hdepth (Nat.le_refl _)
  refine ⟨before, since, hoperations, ⟨?_, ?_⟩⟩
  · intro part hpart
    have hpart := hinside part hpart
    omega
  · rw [← hoperations]
    exact hlevel.symm

theorem count_filterMap_eviction? (events : List ScopeEvent) (name : String)
    (depth : Nat) :
    (events.filterMap ScopeEvent.eviction?).count (name, depth) =
      events.count (.evicting name depth) := by
  induction events with
  | nil => rfl
  | cons event later ih =>
      cases event with
      | entering level =>
          rw [List.filterMap_cons_none rfl, ih]
          simp
      | evicting other level =>
          simp [ScopeEvent.eviction?, List.count_cons, ih]

/-- The evictions can be counted on the texts of the log. -/
theorem count_message (store : Store) (name : String) (depth : Nat) :
    (store.log.toList.map ScopeEvent.message).count
        (ScopeEvent.evicting name depth).message =
      store.evicted.count (name, depth) := by
  rw [List.count_map_of_injective _ _ ScopeEvent.message_injective, evicted,
    count_filterMap_eviction?]

/-- Every declaration is either evicted or pending, and only one of them. -/
theorem count_declared (operations : List StoreOperation)
    (entry : String × Nat) :
    (after operations).evicted.count entry +
        (after operations).pending.count entry =
      (declared {} operations).count entry := by
  have hledger := (applyAll_ledger {} operations).count_eq entry
  rw [List.count_append] at hledger
  exact hledger

theorem count_evicted_zero (operations : List StoreOperation) (name : String) :
    (after operations).evicted.count (name, 0) = 0 :=
  count_evicted_applyAll (fun _ _ => Nat.zero_le _) name

/-- When all blocks have been left, the log shows what was declared in them. -/
theorem count_evicted_of_depth_eq_zero {operations : List StoreOperation}
    (hdepth : (after operations).depth = 0) (name : String) (depth : Nat) :
    (after operations).evicted.count (name, depth) =
      ((declared {} operations).filter fun entry => 1 ≤ entry.2).count
        (name, depth) := by
  by_cases hblock : 1 ≤ depth
  · have hpending : (name, depth) ∉ (after operations).pending := by
      intro hmem
      have := le_depth_of_mem_pending hmem
      omega
    have hcount := count_declared operations (name, depth)
    rw [List.count_eq_zero_of_not_mem hpending] at hcount
    rw [List.count_filter (by simpa using hblock)]
    exact hcount
  · obtain rfl : depth = 0 := by omega
    have hfilter : (name, 0) ∉
        (declared {} operations).filter fun entry => 1 ≤ entry.2 := by simp
    rw [count_evicted_zero, List.count_eq_zero_of_not_mem hfilter]

/-- What is declared outside all blocks stays in the store. -/
theorem contains_of_declared_zero {operations : List StoreOperation}
    {name : String} (hdeclared : (name, 0) ∈ declared {} operations) :
    (after operations).contains name = true := by
  have hcount := count_declared operations (name, 0)
  rw [count_evicted_zero, Nat.zero_add] at hcount
  apply contains_of_mem_pending
  rw [← List.count_pos_iff, hcount, List.count_pos_iff]
  exact hdeclared

/-- In any history, every block that can be left has been entered, and leaving it
gives back, in strict order, the names declared in it since then; the global frame
is never left.  When no block is open, the log shows the eviction of each name
that was declared in a block, once for each time it was declared, and the names
declared outside all blocks are still there. -/
theorem evictions_match_declarations :
    (∀ operations, 1 ≤ (after operations).depth →
      ∃ before since, operations = before ++ .enter :: since ∧
        SinceEnter before since) ∧
    (∀ before since, SinceEnter before since →
      let store := after (before ++ .enter :: since)
      store.exit.1.Pairwise (· < ·) ∧
      ∀ name, name ∈ store.exit.1 ↔
        (name, store.depth) ∈ (after (before ++ [.enter])).declared since) ∧
    (∀ operations, (after operations).depth = 0 →
      (after operations).exit = ([], after operations)) ∧
    (∀ operations, (after operations).depth = 0 →
      (∀ name depth,
        ((after operations).log.toList.map ScopeEvent.message).count
            (ScopeEvent.evicting name depth).message =
          ((declared {} operations).filter fun entry => 1 ≤ entry.2).count
            (name, depth)) ∧
      ∀ name, (name, 0) ∈ declared {} operations →
        (after operations).contains name = true) := by
  refine ⟨?_, ?_, ?_, ?_⟩
  · intro operations hdepth
    exact exists_sinceEnter hdepth
  · intro before since hsince store
    refine ⟨?_, hsince.mem_exit_iff⟩
    have hdepth : 1 ≤ store.depth := by
      have hinnermost : store.depth = (after before).depth + 1 :=
        hsince.innermost
      omega
    rw [exit_fst hdepth]
    exact (Sound.after _).sorted _ List.mem_cons_self
  · intro operations hdepth
    exact exit_of_outer_eq_nil (List.length_eq_zero_iff.mp hdepth)
  · intro operations hdepth
    refine ⟨?_, fun name => contains_of_declared_zero⟩
    intro name depth
    rw [count_message]
    exact count_evicted_of_depth_eq_zero hdepth name depth

/-- Declarations in a block, one of them refused. -/
def inBlock : List StoreOperation :=
  [.declare "b" ⟨.bool true, false⟩, .declare "a" ⟨.absent, true⟩,
    .declare "b" ⟨.absent, true⟩]

/-- Two blocks with the same declarations, one after the other, and an exit too
many. -/
def blockTwice : List StoreOperation :=
  .enter :: inBlock ++ [.exit, .enter] ++ inBlock ++ [.exit, .exit]

theorem sinceEnter_inBlock : SinceEnter [.enter] inBlock := by
  refine ⟨?_, rfl⟩
  intro part hpart
  rcases List.prefix_cons_iff.mp hpart with rfl | ⟨second, rfl, hsecond⟩
  · decide
  · rcases List.prefix_cons_iff.mp hsecond with rfl | ⟨third, rfl, hthird⟩
    · decide +kernel
    · rcases List.prefix_cons_iff.mp hthird with rfl | ⟨fourth, rfl, hfourth⟩
      · decide +kernel
      · rw [List.prefix_nil.mp hfourth]
        decide +kernel

theorem blockTwice_evictions :
    "b" ∈ (after ([.enter] ++ .enter :: inBlock)).exit.1 ∧
      (after blockTwice).depth = 0 ∧
      ((after blockTwice).log.toList.map ScopeEvent.message).count
        "Evicting b at block level 1" = 2 := by
  obtain ⟨_, hexit, _, hlog⟩ := evictions_match_declarations
  have hdepth : (after blockTwice).depth = 0 := by decide +kernel
  refine ⟨?_, hdepth, ?_⟩
  · apply ((hexit [.enter] inBlock sinceEnter_inBlock).2 "b").mpr
    decide +kernel
  · apply ((hlog blockTwice hdepth).1 "b" 1).trans
    decide +kernel

end Store

end LineScript
