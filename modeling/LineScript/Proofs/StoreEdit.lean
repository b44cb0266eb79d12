/-
How the store changes while statements run.  A statement without a body only
declares new names in the innermost frame and writes to variables that are not
constant.  What such edits keep, a whole run keeps as well: a block runs in a
frame of its own, and the frames below it have the same names afterwards.
-/
import LineScript.Store

namespace LineScript

/-- A look-up finds what is listed. -/
theorem mem_of_lookup_eq_some {α : Type} {entries : List (String × α)}
    {name : String} {held : α} (hfound : entries.lookup name = some held) :
    (name, held) ∈ entries := by
  obtain ⟨front, back, hentries, _⟩ := List.lookup_eq_some_iff.mp hfound
  rw [hentries]
  exact List.mem_append_right front List.mem_cons_self

namespace Frame

@[simp]
theorem names_modify (frame : Frame) (name : String)
    (change : Variable → Variable) :
    (frame.modify name change).names = frame.names := by
  induction frame with
  | nil => rfl
  | cons entry later ih =>
      obtain ⟨other, held⟩ := entry
      by_cases hname : other = name
      · simpa [modify, names, hname] using ih
      · simpa [modify, names, hname] using ih

theorem names_sublist_insert (name : String) (fresh : Variable)
    (frame : Frame) : frame.names.Sublist (frame.insert name fresh).names := by
  induction frame with
  | nil => exact List.nil_sublist _
  | cons entry later ih =>
      obtain ⟨other, held⟩ := entry
      by_cases hbefore : name < other
      · simp [insert, names, hbefore]
      · simpa [insert, names, hbefore] using ih

theorem mem_names_insert {name other : String} {fresh : Variable}
    {frame : Frame} :
    other ∈ (frame.insert name fresh).names ↔
      other = name ∨ other ∈ frame.names := by
  induction frame with
  | nil => simp [insert, names]
  | cons entry later ih =>
      obtain ⟨first, held⟩ := entry
      by_cases hbefore : name < first
      · simp [insert, names, hbefore]
      · simp only [insert, names, hbefore, if_false, List.map_cons,
          List.mem_cons] at ih ⊢
        rw [ih]
        exact or_left_comm

theorem get?_cons (other : String) (held : Variable) (later : Frame)
    (name : String) :
    get? ((other, held) :: later) name =
      if name = other then some held else later.get? name := by
  by_cases hname : name = other
  · simp [get?, hname]
  · have hdiffer : (name == other) = false := by simpa using hname
    simp [get?, List.lookup_cons, hname, hdiffer]

theorem get?_eq_none_iff {frame : Frame} {name : String} :
    frame.get? name = none ↔ name ∉ frame.names := by
  simp only [get?, names, List.lookup_eq_none_iff, List.mem_map]
  grind

theorem get?_modify (frame : Frame) (name : String)
    (change : Variable → Variable) (other : String) :
    (frame.modify name change).get? other =
      if other = name then (frame.get? other).map change
      else frame.get? other := by
  induction frame with
  | nil => simp [modify, get?]
  | cons entry later ih =>
      obtain ⟨first, held⟩ := entry
      have hcons : modify name change ((first, held) :: later) =
          (first, if first = name then change held else held) ::
            modify name change later := by
        by_cases hfirst : first = name <;> simp [modify, hfirst]
      rw [hcons, get?_cons, get?_cons, ih]
      by_cases hother : other = first
      · subst hother
        by_cases hname : other = name <;> simp [hname]
      · simp [hother]

/-- A name that a frame does not have is inserted beside its other names. -/
theorem get?_insert {frame : Frame} {name : String}
    (habsent : frame.get? name = none) (fresh : Variable) (other : String) :
    (frame.insert name fresh).get? other =
      if other = name then some fresh else frame.get? other := by
  induction frame with
  | nil => simp [insert, get?_cons]
  | cons entry later ih =>
      obtain ⟨first, held⟩ := entry
      rw [get?_cons] at habsent
      have hfirst : name ≠ first := by
        rintro rfl
        simp at habsent
      have hlater : get? later name = none := by
        simpa [hfirst] using habsent
      by_cases hbefore : name < first
      · simp [insert, get?_cons, hbefore]
      · by_cases hother : other = first
        · simp [insert, get?_cons, hbefore, hother, Ne.symm hfirst]
        · simp [insert, get?_cons, hbefore, hother, ih hlater]

end Frame

namespace Store

/-- The names of every frame, from the innermost one to the global one. -/
def frameNames (store : Store) : List (List String) :=
  store.frames.map Frame.names

theorem frameNames_eq_cons (store : Store) :
    store.frameNames =
      store.innermost.names :: store.outer.map Frame.names :=
  rfl

theorem contains_eq_false_iff {store : Store} {name : String} :
    store.contains name = false ↔ store.get? name = none := by
  simp [contains]

/-- A look-up asks the innermost frame first. -/
theorem get?_eq_or (store : Store) (name : String) :
    store.get? name =
      (store.innermost.get? name).or
        (store.outer.findSome? fun frame => frame.get? name) := by
  simp only [get?, frames, List.findSome?_cons]
  cases store.innermost.get? name <;> rfl

theorem get?_modify (store : Store) (name : String)
    (change : Variable → Variable) (other : String) :
    (store.modify name change).get? other =
      if other = name then (store.get? other).map change
      else store.get? other := by
  have hframes : (store.modify name change).frames =
      store.frames.map fun frame => frame.modify name change := rfl
  rw [get?, get?, hframes, List.findSome?_map]
  induction store.frames with
  | nil => simp
  | cons frame later ih =>
      simp only [List.findSome?_cons, Function.comp_apply, Frame.get?_modify]
      by_cases hother : other = name
      · cases hheld : frame.get? other with
        | none => simpa [hother, hheld] using ih
        | some held => simp [hother]
      · cases hheld : frame.get? other with
        | none => simpa [hother, hheld] using ih
        | some held => simp [hother]

@[simp]
theorem frameNames_modify (store : Store) (name : String)
    (change : Variable → Variable) :
    (store.modify name change).frameNames = store.frameNames := by
  simp [frameNames, frames, modify]

/-- A declaration succeeds exactly for a name that no frame has. -/
theorem declare?_eq_some_iff {store after : Store} {name : String}
    {fresh : Variable} :
    store.declare? name fresh = some after ↔
      store.contains name = false ∧
        after =
          { store with innermost := store.innermost.insert name fresh } := by
  by_cases hname : store.contains name = true
  · simp [declare?, hname]
  · simp [declare?, hname, eq_comm]

theorem get?_of_declare? {store after : Store} {name : String}
    {fresh : Variable} (hdeclare : store.declare? name fresh = some after)
    (other : String) :
    after.get? other =
      if other = name then some fresh else store.get? other := by
  obtain ⟨habsent, rfl⟩ := declare?_eq_some_iff.mp hdeclare
  rw [contains_eq_false_iff, get?_eq_or, Option.or_eq_none_iff] at habsent
  simp only [get?_eq_or, Frame.get?_insert habsent.1]
  by_cases hother : other = name <;> simp [hother]

end Store

/-- What a write may do to a variable: a constant stays as it is, and no other
variable becomes one. -/
structure Variable.Keeps (before after : Variable) : Prop where
  constant : after.constant = before.constant
  value : before.constant = true → after.value = before.value

theorem Variable.Keeps.refl (held : Variable) : held.Keeps held :=
  ⟨rfl, fun _ => rfl⟩

theorem Variable.Keeps.trans {first second third : Variable}
    (hfirst : first.Keeps second) (hsecond : second.Keeps third) :
    first.Keeps third := by
  refine ⟨hsecond.constant.trans hfirst.constant, ?_⟩
  intro hconstant
  have hstill : second.constant = true := by rw [hfirst.constant, hconstant]
  rw [hsecond.value hstill, hfirst.value hconstant]

theorem Variable.Keeps.eq_of_constant {before after : Variable}
    (hkeeps : before.Keeps after) (hconstant : before.constant = true) :
    after = before := by
  have hvalue := hkeeps.value hconstant
  have hflag := hkeeps.constant
  cases before
  cases after
  simp_all

namespace Store

/-- What statements without a body do to a store: they declare names that no
frame has, and write to variables as far as these can be written to. -/
inductive Edits (store : Store) : Store → Prop
  | refl : Edits store store
  | declare {between after : Store} {name : String} {fresh : Variable} :
    Edits store between → between.declare? name fresh = some after →
      Edits store after
  | write {between : Store} {name : String} {change : Variable → Variable} :
    Edits store between →
      (∀ held, between.get? name = some held → held.Keeps (change held)) →
      Edits store (between.modify name change)

theorem Edits.trans {first second third : Store}
    (hfirst : first.Edits second) (hsecond : second.Edits third) :
    first.Edits third := by
  induction hsecond with
  | refl => exact hfirst
  | declare _ hdeclare ih => exact ih.declare hdeclare
  | write _ hkeeps ih => exact ih.write hkeeps

theorem edits_declare (store : Store) (name : String) (fresh : Variable) :
    store.Edits (store.declare name fresh) := by
  cases hdeclare : store.declare? name fresh with
  | none =>
      rw [declare, hdeclare]
      exact .refl
  | some after =>
      rw [declare, hdeclare]
      exact Edits.refl.declare hdeclare

/-- A variable that is not constant can be given any value. -/
theorem edits_setValue {store : Store} {name : String} {held : Variable}
    (hheld : store.get? name = some held) (hvariable : held.constant = false)
    (value : Value) : store.Edits (store.setValue name value) := by
  apply Edits.refl.write
  intro found hfound
  rw [hheld, Option.some.injEq] at hfound
  subst found
  exact ⟨rfl, by simp [hvariable]⟩

/-- What a run of statements does to a store.  The outer frames keep their
names; the innermost one may get new ones, which no frame had before; and every
variable is still there. -/
structure Extends (before after : Store) : Prop where
  outer : after.outer.map Frame.names = before.outer.map Frame.names
  innermost : before.innermost.names.Sublist after.innermost.names
  fresh : ∀ name ∈ after.innermost.names,
    name ∈ before.innermost.names ∨ before.get? name = none
  kept : ∀ name held, before.get? name = some held →
    ∃ now, after.get? name = some now ∧ held.Keeps now

namespace Extends

theorem refl (store : Store) : store.Extends store where
  outer := rfl
  innermost := List.Sublist.refl _
  fresh := fun _ hname => Or.inl hname
  kept := fun _ held hheld => ⟨held, hheld, .refl held⟩

theorem trans {first second third : Store} (hfirst : first.Extends second)
    (hsecond : second.Extends third) : first.Extends third where
  outer := hsecond.outer.trans hfirst.outer
  innermost := hfirst.innermost.trans hsecond.innermost
  fresh := by
    intro name hname
    rcases hsecond.fresh name hname with hold | hnone
    · exact hfirst.fresh name hold
    · right
      cases hheld : first.get? name with
      | none => rfl
      | some held =>
          obtain ⟨now, hnow, _⟩ := hfirst.kept name held hheld
          rw [hnow] at hnone
          contradiction
  kept := by
    intro name held hheld
    obtain ⟨between, hbetween, hkeeps⟩ := hfirst.kept name held hheld
    obtain ⟨now, hnow, hlater⟩ := hsecond.kept name between hbetween
    exact ⟨now, hnow, hkeeps.trans hlater⟩

theorem of_declare? {store after : Store} {name : String} {fresh : Variable}
    (hdeclare : store.declare? name fresh = some after) :
    store.Extends after := by
  have hget := get?_of_declare? hdeclare
  obtain ⟨habsent, rfl⟩ := declare?_eq_some_iff.mp hdeclare
  rw [contains_eq_false_iff] at habsent
  refine ⟨rfl, Frame.names_sublist_insert name fresh _, ?_, ?_⟩
  · intro other hother
    rcases Frame.mem_names_insert.mp hother with rfl | hold
    · exact Or.inr habsent
    · exact Or.inl hold
  · intro other held hheld
    have hdiffer : other ≠ name := by
      rintro rfl
      rw [habsent] at hheld
      contradiction
    exact ⟨held, by rw [hget, if_neg hdiffer, hheld], .refl held⟩

theorem of_frameNames_eq {before after : Store}
    (hnames : after.frameNames = before.frameNames)
    (hkept : ∀ name held, before.get? name = some held →
      ∃ now, after.get? name = some now ∧ held.Keeps now) :
    before.Extends after := by
  rw [frameNames_eq_cons, frameNames_eq_cons, List.cons.injEq] at hnames
  refine ⟨hnames.2, ?_, ?_, hkept⟩
  · exact hnames.1 ▸ List.Sublist.refl _
  · intro name hname
    rw [hnames.1] at hname
    exact Or.inl hname

theorem of_modify {store : Store} {name : String}
    {change : Variable → Variable}
    (hkeeps : ∀ held, store.get? name = some held →
      held.Keeps (change held)) :
    store.Extends (store.modify name change) := by
  apply of_frameNames_eq (frameNames_modify store name change)
  intro other held hheld
  rw [get?_modify, hheld]
  by_cases hother : other = name
  · subst hother
    exact ⟨change held, by simp, hkeeps held hheld⟩
  · exact ⟨held, by simp [hother], .refl held⟩

theorem of_edits {before after : Store} (hedits : before.Edits after) :
    before.Extends after := by
  induction hedits with
  | refl => exact .refl before
  | declare _ hdeclare ih => exact ih.trans (of_declare? hdeclare)
  | write _ hkeeps ih => exact ih.trans (of_modify hkeeps)

theorem depth_eq {before after : Store} (hextends : before.Extends after) :
    after.depth = before.depth := by
  have hlength := congrArg List.length hextends.outer
  simpa [depth] using hlength

/-- A store that a block runs on has the frames of the block's surroundings
under its innermost one. -/
theorem exists_below {before after : Store}
    (hextends : before.enter.Extends after) :
    ∃ below rest, after.outer = below :: rest ∧
      below.names = before.innermost.names ∧
      rest.map Frame.names = before.outer.map Frame.names := by
  have houter := hextends.outer
  cases hcase : after.outer with
  | nil => simp [hcase, enter] at houter
  | cons below rest =>
      rw [hcase] at houter
      simp only [enter, List.map_cons, List.cons.injEq] at houter
      exact ⟨below, rest, rfl, houter.1, houter.2⟩

theorem frameNames_exit {before after : Store}
    (hextends : before.enter.Extends after) :
    after.exit.2.frameNames = before.frameNames := by
  obtain ⟨below, rest, houter, hbelow, hrest⟩ := exists_below hextends
  simp [exit, houter, frameNames_eq_cons, hbelow, hrest]

/-- Leaving a block evicts no variable from before the block: the names of its
frame were new when they were declared. -/
theorem get?_exit {before after : Store}
    (hextends : before.enter.Extends after) {name : String}
    (hname : before.get? name ≠ none) :
    after.exit.2.get? name = after.get? name := by
  obtain ⟨below, rest, houter, _, _⟩ := exists_below hextends
  have hinner : after.innermost.get? name = none := by
    rw [Frame.get?_eq_none_iff]
    intro hmem
    rcases hextends.fresh name hmem with hold | hnone
    · simp [enter, Frame.names] at hold
    · exact hname hnone
  rw [get?_eq_or after, hinner]
  simp [exit, houter, get?, frames]

theorem exit {before after : Store}
    (hextends : before.enter.Extends after) :
    before.Extends after.exit.2 := by
  apply of_frameNames_eq (frameNames_exit hextends)
  intro name held hheld
  obtain ⟨now, hnow, hkeeps⟩ := hextends.kept name held hheld
  refine ⟨now, ?_, hkeeps⟩
  rw [get?_exit hextends (by simp [hheld]), hnow]

end Extends

end Store

end LineScript
