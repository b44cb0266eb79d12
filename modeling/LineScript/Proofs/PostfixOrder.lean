/-
The order of a postfix form.  Tokens that look alike are told apart by their
places in the text.  Operands come out when they are read.  An operator is taken
only behind an operand, and then nothing comes out before the next operand has;
so when an operator comes out, its neighbours on both sides have.
-/
import LineScript.Proofs.PostfixBalance

namespace LineScript

/-- The part of a postfix form that a lexeme becomes; parentheses become none.
-/
def Lexeme.item? : Lexeme → Option PostfixItem
  | operand text => some (.operand text)
  | operator op => some (.operator op)
  | opening | closing | danglingSign => none

/-- A part of a postfix form with the place that it has in the text. -/
structure PlacedItem where
  item : PostfixItem
  place : Nat
  deriving DecidableEq, Repr

def PlacedItem.isOperand (entry : PlacedItem) : Bool :=
  entry.item.operand?.isSome

/-- The operands and operators among lexemes.  Places are counted from `first`.
-/
def placedItems (first : Nat) : List Lexeme → List PlacedItem
  | [] => []
  | lexeme :: later =>
    match lexeme.item? with
    | some item => ⟨item, first⟩ :: placedItems (first + 1) later
    | none => placedItems (first + 1) later

/-- An order in which operands and operators may stand in a postfix form.  The
operands keep their order, and every operator stands behind the operands next to
it. -/
structure PostfixOrder (placed order : List PlacedItem) : Prop where
  perm : order.Perm placed
  operandsKept : order.filter PlacedItem.isOperand =
    placed.filter PlacedItem.isOperand
  behindOperands : ∀ before entry behind, placed = before ++ entry :: behind →
    entry.isOperand = false →
    ∃ left right,
      (before.filter PlacedItem.isOperand).getLast? = some left ∧
      (behind.filter PlacedItem.isOperand).head? = some right ∧
      [left, entry].Sublist order ∧ [right, entry].Sublist order

section Places

variable {first : Nat} {parts : List Lexeme}

theorem le_place : ∀ entry ∈ placedItems first parts, first ≤ entry.place := by
  induction parts generalizing first with
  | nil => exact nofun
  | cons lexeme later ih =>
      have hlater : ∀ entry ∈ placedItems (first + 1) later,
          first ≤ entry.place := by
        intro entry hentry
        exact Nat.le_of_succ_le (ih entry hentry)
      rw [placedItems]
      split
      · exact List.forall_mem_cons.mpr ⟨Nat.le_refl first, hlater⟩
      · exact hlater

theorem places_increase :
    (placedItems first parts).Pairwise fun left right =>
      left.place < right.place := by
  induction parts generalizing first with
  | nil => exact .nil
  | cons lexeme later ih =>
      rw [placedItems]
      split
      · exact .cons le_place ih
      · exact ih

end Places

/-- Some operand stands in the text between two places. -/
def OperandWithin (placed : List PlacedItem) (low high : Nat) : Prop :=
  ∃ entry ∈ placed, entry.isOperand = true ∧ low ≤ entry.place ∧
    entry.place < high

theorem OperandWithin.succ {placed : List PlacedItem} {low high : Nat}
    (hwithin : OperandWithin placed low high) :
    OperandWithin placed low (high + 1) := by
  obtain ⟨entry, hentry, hoperand, hlow, hhigh⟩ := hwithin
  exact ⟨entry, hentry, hoperand, hlow, Nat.lt_succ_of_lt hhigh⟩

/-- An operand comes out behind another entry only if it is not the next one in
the text. -/
def MayPrecede (placed : List PlacedItem) (earlier later : PlacedItem) : Prop :=
  later.isOperand = true → OperandWithin placed earlier.place later.place

/-- An order of operators that wait and of entries that are still to be read.
It writes the given postfix form. -/
structure WaitingOrder (placed waits entries : List PlacedItem)
    (items : List PostfixItem) (order : List PlacedItem) : Prop where
  items_eq : order.map PlacedItem.item = items
  perm : order.Perm (waits ++ entries)
  operandsKept : order.filter PlacedItem.isOperand =
    entries.filter PlacedItem.isOperand
  mayPrecede : order.Pairwise (MayPrecede placed)

namespace WaitingOrder

variable {placed released kept waits entries order : List PlacedItem}
  {items : List PostfixItem} {pending : List Operator} {first : Nat}

theorem isOperand_of_map_item
    (hwaits : waits.map PlacedItem.item = pending.map .operator) :
    ∀ wait ∈ waits, wait.isOperand = false := by
  intro wait hwait
  have hitem : wait.item ∈ pending.map PostfixItem.operator :=
    hwaits ▸ List.mem_map_of_mem hwait
  obtain ⟨op, _, hop⟩ := List.mem_map.mp hitem
  rw [PlacedItem.isOperand, ← hop]
  rfl

theorem nil : WaitingOrder placed [] [] [] [] where
  items_eq := rfl
  perm := .nil
  operandsKept := rfl
  mayPrecede := .nil

/-- Operators may come out at once if an operand has been read behind each of
them. -/
theorem release
    (hreleased : released.map PlacedItem.item = pending.map .operator)
    (hready : ∀ wait ∈ released, OperandWithin placed wait.place first)
    (hfirst : ∀ entry ∈ entries, first ≤ entry.place)
    (hrest : WaitingOrder placed kept entries items order) :
    WaitingOrder placed (released ++ kept) entries
      (pending.map .operator ++ items) (released ++ order) where
  items_eq := by rw [List.map_append, hreleased, hrest.items_eq]
  perm := by
    rw [List.append_assoc]
    exact hrest.perm.append_left released
  operandsKept := by
    have hnone : released.filter PlacedItem.isOperand = [] := by
      apply List.filter_eq_nil_iff.mpr
      intro wait hwait
      rw [isOperand_of_map_item hreleased wait hwait]
      decide
    rw [List.filter_append, hnone, List.nil_append, hrest.operandsKept]
  mayPrecede := by
    refine List.pairwise_append.mpr ⟨?_, hrest.mayPrecede, ?_⟩
    · refine List.pairwise_of_forall_mem_list ?_
      intro earlier _ later hlater hoperand
      rw [isOperand_of_map_item hreleased later hlater] at hoperand
      contradiction
    · intro earlier hearlier later hlater hoperand
      have hentry : later ∈ entries.filter PlacedItem.isOperand :=
        hrest.operandsKept ▸ List.mem_filter.mpr ⟨hlater, hoperand⟩
      have hplace := hfirst later (List.mem_filter.mp hentry).1
      obtain ⟨operand, hmem, hisOperand, hlow, hhigh⟩ :=
        hready earlier hearlier
      exact ⟨operand, hmem, hisOperand, hlow, Nat.lt_of_lt_of_le hhigh hplace⟩

/-- An operator that is read becomes one that waits. -/
theorem operator {op : Operator}
    (hrest : WaitingOrder placed (⟨.operator op, first⟩ :: kept) entries items
      order) :
    WaitingOrder placed kept (⟨.operator op, first⟩ :: entries) items
      order where
  items_eq := hrest.items_eq
  perm := hrest.perm.trans List.perm_middle.symm
  operandsKept := hrest.operandsKept
  mayPrecede := hrest.mayPrecede

theorem operand {text : String}
    (hplaced : ⟨.operand text, first⟩ ∈ placed)
    (hfirst : ∀ entry ∈ entries, first < entry.place)
    (hrest : WaitingOrder placed waits entries items order) :
    WaitingOrder placed waits (⟨.operand text, first⟩ :: entries)
      (.operand text :: items) (⟨.operand text, first⟩ :: order) where
  items_eq := by rw [List.map_cons, hrest.items_eq]
  perm := (hrest.perm.cons _).trans List.perm_middle.symm
  operandsKept := congrArg (_ :: ·) hrest.operandsKept
  mayPrecede := by
    refine .cons ?_ hrest.mayPrecede
    intro later hlater hoperand
    have hentry : later ∈ entries.filter PlacedItem.isOperand :=
      hrest.operandsKept ▸ List.mem_filter.mpr ⟨hlater, hoperand⟩
    have hplace := hfirst later (List.mem_filter.mp hentry).1
    exact ⟨_, hplaced, rfl, Nat.le_refl first, hplace⟩

end WaitingOrder

/-- The entries of the operators that wait on a stack. -/
def WaitsOn (stack : List Waiting) (waits : List PlacedItem) : Prop :=
  waits.map PlacedItem.item =
    (stack.filterMap Waiting.operator?).map .operator

theorem WaitsOn.exists_released {pending : List Operator}
    {stack : List Waiting} {waits : List PlacedItem}
    (hwaits : WaitsOn (pending.map .operator ++ stack) waits) :
    ∃ released kept, waits = released ++ kept ∧
      released.map PlacedItem.item = pending.map .operator ∧
      WaitsOn stack kept := by
  rw [WaitsOn, List.filterMap_append, Waiting.operators_map_operator,
    List.map_append] at hwaits
  exact List.map_eq_append_iff.mp hwaits

namespace Arranges

variable {expecting : Bool} {stack : List Waiting} {parts : List Lexeme}
  {items : List PostfixItem} {placed waits : List PlacedItem} {first : Nat}

/-- The postfix form is an order of the operators that wait and of the entries
still to be read.  `placed` are the entries of the whole text. -/
theorem exists_waitingOrder (harranges : Arranges expecting stack parts items)
    (hplaced : placedItems first parts ⊆ placed)
    (hwaits : WaitsOn stack waits)
    (hbelow : ∀ wait ∈ waits, wait.place < first)
    (hready : expecting = false →
      ∀ wait ∈ waits, OperandWithin placed wait.place first) :
    ∃ order,
      WaitingOrder placed waits (placedItems first parts) items order := by
  induction harranges generalizing first waits with
  | done pending =>
      rw [WaitsOn, Waiting.operators_map_operator] at hwaits
      have hall := WaitingOrder.nil.release hwaits (hready rfl)
        fun _ hentry => absurd hentry List.not_mem_nil
      simp only [List.append_nil] at hall
      exact ⟨waits, hall⟩
  | opening _ ih =>
      refine ih hplaced hwaits ?_ nofun
      exact fun wait hwait => Nat.lt_succ_of_lt (hbelow wait hwait)
  | closing _ ih =>
      obtain ⟨released, kept, rfl, hreleased, hkept⟩ := hwaits.exists_released
      obtain ⟨_, hbelowKept⟩ := List.forall_mem_append.mp hbelow
      obtain ⟨hreadyReleased, hreadyKept⟩ :=
        List.forall_mem_append.mp (hready rfl)
      obtain ⟨order, hrest⟩ := ih hplaced hkept
        (fun wait hwait => Nat.lt_succ_of_lt (hbelowKept wait hwait))
        fun _ wait hwait => (hreadyKept wait hwait).succ
      exact ⟨_, hrest.release hreleased hreadyReleased le_place⟩
  | @operator op _ _ _ _ _ _ _ ih =>
      obtain ⟨released, kept, rfl, hreleased, hkept⟩ := hwaits.exists_released
      obtain ⟨_, hbelowKept⟩ := List.forall_mem_append.mp hbelow
      obtain ⟨hreadyReleased, _⟩ := List.forall_mem_append.mp (hready rfl)
      have hwaits : WaitsOn (.operator op :: _)
          (⟨.operator op, first⟩ :: kept) := congrArg (_ :: ·) hkept
      obtain ⟨order, hrest⟩ :=
        ih (List.subset_of_cons_subset hplaced) hwaits
          (List.forall_mem_cons.mpr ⟨Nat.lt_succ_self first,
            fun wait hwait => Nat.lt_succ_of_lt (hbelowKept wait hwait)⟩) nofun
      exact ⟨_, hrest.operator.release hreleased hreadyReleased le_place⟩
  | @operand expecting text _ _ _ _ ih =>
      obtain ⟨hmem, hlater⟩ := List.cons_subset.mp hplaced
      obtain ⟨order, hrest⟩ := ih hlater hwaits
        (fun wait hwait => Nat.lt_succ_of_lt (hbelow wait hwait))
        fun _ wait hwait => ⟨_, hmem, rfl, Nat.le_of_lt (hbelow wait hwait),
          Nat.lt_succ_self first⟩
      exact ⟨_, hrest.operand hmem le_place⟩

/-- Where an operand is expected, there is one. -/
theorem exists_operand (harranges : Arranges expecting stack parts items)
    (hexpecting : expecting = true) :
    ∃ entry ∈ placedItems first parts, entry.isOperand = true := by
  induction harranges generalizing first with
  | done _ | closing _ _ | operator _ _ _ _ => contradiction
  | opening _ ih => exact ih rfl
  | operand _ _ => exact ⟨_, List.mem_cons_self, rfl⟩

theorem exists_operand_behind
    (harranges : Arranges expecting stack parts items) :
    ∀ entry ∈ placedItems first parts, entry.isOperand = false →
      ∃ other ∈ placedItems first parts, other.isOperand = true ∧
        entry.place < other.place := by
  induction harranges generalizing first with
  | done _ => exact nofun
  | opening _ ih | closing _ ih => exact ih
  | operator _ _ hlater ih =>
      refine List.forall_mem_cons.mpr ⟨fun _ => ?_, ?_⟩
      · obtain ⟨other, hother, hoperand⟩ := hlater.exists_operand rfl
        exact ⟨other, List.mem_cons_of_mem _ hother, hoperand,
          le_place other hother⟩
      · intro entry hentry hoperator
        obtain ⟨other, hother, hbehind⟩ := ih entry hentry hoperator
        exact ⟨other, List.mem_cons_of_mem _ hother, hbehind⟩
  | operand _ ih =>
      refine List.forall_mem_cons.mpr ⟨nofun, ?_⟩
      intro entry hentry hoperator
      obtain ⟨other, hother, hbehind⟩ := ih entry hentry hoperator
      exact ⟨other, List.mem_cons_of_mem _ hother, hbehind⟩

/-- An operator is taken only behind an operand. -/
theorem exists_operand_before (harranges : Arranges expecting stack parts items)
    (hplaced : placedItems first parts ⊆ placed)
    (hread : expecting = false → OperandWithin placed 0 first) :
    ∀ entry ∈ placedItems first parts, entry.isOperand = false →
      OperandWithin placed 0 entry.place := by
  induction harranges generalizing first with
  | done _ => exact nofun
  | opening _ ih => exact ih hplaced nofun
  | closing _ ih => exact ih hplaced fun _ => (hread rfl).succ
  | operator _ _ _ ih =>
      obtain ⟨_, hlater⟩ := List.cons_subset.mp hplaced
      exact List.forall_mem_cons.mpr ⟨fun _ => hread rfl, ih hlater nofun⟩
  | operand _ ih =>
      obtain ⟨hmem, hlater⟩ := List.cons_subset.mp hplaced
      refine List.forall_mem_cons.mpr ⟨nofun, ih hlater fun _ => ?_⟩
      exact ⟨_, hmem, rfl, Nat.zero_le _, Nat.lt_succ_self first⟩

end Arranges

section Neighbours

variable {order placed before behind : List PlacedItem}
  {entry other : PlacedItem}

/-- An operand comes out in front of an operator unless another operand stands
between them in the text. -/
theorem sublist_of_not_within (hpairwise : order.Pairwise (MayPrecede placed))
    (hentry : entry ∈ order) (hother : other ∈ order)
    (hoperator : entry.isOperand = false) (hoperand : other.isOperand = true)
    (hnone : ¬ OperandWithin placed entry.place other.place) :
    [other, entry].Sublist order := by
  obtain ⟨front, back, rfl⟩ := List.append_of_mem hentry
  obtain ⟨_, hcons, _⟩ := List.pairwise_append.mp hpairwise
  have hback := (List.pairwise_cons.mp hcons).1
  have hfront : other ∈ front := by
    rcases List.mem_append.mp hother with hfront | hrest
    · exact hfront
    rcases List.mem_cons.mp hrest with rfl | hlater
    · rw [hoperator] at hoperand
      contradiction
    · exact absurd (hback other hlater hoperand) hnone
  exact (List.singleton_sublist.mpr hfront).append
    (List.singleton_sublist.mpr List.mem_cons_self)

variable (hincrease : (before ++ entry :: behind).Pairwise fun left right =>
  left.place < right.place)

include hincrease

theorem mem_before (hother : other ∈ before ++ entry :: behind)
    (hplace : other.place < entry.place) : other ∈ before := by
  obtain ⟨_, hcons, _⟩ := List.pairwise_append.mp hincrease
  rcases List.mem_append.mp hother with hbefore | hrest
  · exact hbefore
  rcases List.mem_cons.mp hrest with rfl | hlater
  · exact absurd hplace (Nat.lt_irrefl _)
  · have hbehind := (List.pairwise_cons.mp hcons).1 other hlater
    omega

theorem mem_behind (hother : other ∈ before ++ entry :: behind)
    (hplace : entry.place < other.place) : other ∈ behind := by
  obtain ⟨_, _, hcross⟩ := List.pairwise_append.mp hincrease
  rcases List.mem_append.mp hother with hearlier | hrest
  · have hbefore := hcross other hearlier entry List.mem_cons_self
    omega
  rcases List.mem_cons.mp hrest with rfl | hlater
  · exact absurd hplace (Nat.lt_irrefl _)
  · exact hlater

/-- Nothing stands between an operator and the first operand behind it. -/
theorem not_within_of_head? (hoperator : entry.isOperand = false)
    (hhead : (behind.filter PlacedItem.isOperand).head? = some other) :
    ¬ OperandWithin (before ++ entry :: behind) entry.place other.place := by
  rintro ⟨between, hbetween, hoperand, hlow, hhigh⟩
  obtain ⟨_, hcons, hcross⟩ := List.pairwise_append.mp hincrease
  rcases List.mem_append.mp hbetween with hearlier | hrest
  · have hbefore := hcross between hearlier entry List.mem_cons_self
    omega
  rcases List.mem_cons.mp hrest with rfl | hlater
  · rw [hoperator] at hoperand
    contradiction
  · obtain ⟨rest, hfilter⟩ := List.head?_eq_some_iff.mp hhead
    have hsorted := (List.pairwise_cons.mp hcons).2.filter PlacedItem.isOperand
    have hmem : between ∈ behind.filter PlacedItem.isOperand :=
      List.mem_filter.mpr ⟨hlater, hoperand⟩
    rw [hfilter] at hsorted hmem
    rcases List.mem_cons.mp hmem with rfl | hmem
    · exact absurd hhigh (Nat.lt_irrefl _)
    · have hfirst := (List.pairwise_cons.mp hsorted).1 between hmem
      omega

end Neighbours

/-- A finished order has every operator behind the operands next to it. -/
theorem WaitingOrder.postfixOrder {placed order : List PlacedItem}
    {items : List PostfixItem}
    (hall : WaitingOrder placed [] placed items order)
    (hincrease : placed.Pairwise fun left right => left.place < right.place)
    (hbefore : ∀ entry ∈ placed, entry.isOperand = false →
      OperandWithin placed 0 entry.place)
    (hbehind : ∀ entry ∈ placed, entry.isOperand = false →
      ∃ other ∈ placed, other.isOperand = true ∧ entry.place < other.place) :
    PostfixOrder placed order where
  perm := hall.perm
  operandsKept := hall.operandsKept
  behindOperands := by
    rintro before entry behind rfl hoperator
    have hentry : entry ∈ before ++ entry :: behind :=
      List.mem_append_right before List.mem_cons_self
    obtain ⟨earlier, hearlier, hearlierOperand, _, hlow⟩ :=
      hbefore entry hentry hoperator
    obtain ⟨later, hlater, hlaterOperand, hhigh⟩ :=
      hbehind entry hentry hoperator
    obtain ⟨left, hleft⟩ : ∃ left,
        (before.filter PlacedItem.isOperand).getLast? = some left := by
      have hmem := List.mem_filter.mpr
        ⟨mem_before hincrease hearlier hlow, hearlierOperand⟩
      exact ⟨_, List.getLast?_eq_some_getLast (List.ne_nil_of_mem hmem)⟩
    obtain ⟨right, hright⟩ : ∃ right,
        (behind.filter PlacedItem.isOperand).head? = some right := by
      have hmem := List.mem_filter.mpr
        ⟨mem_behind hincrease hlater hhigh, hlaterOperand⟩
      exact ⟨_, List.head?_eq_some_head (List.ne_nil_of_mem hmem)⟩
    obtain ⟨hleftMem, hleftOperand⟩ :=
      List.mem_filter.mp (List.mem_of_getLast? hleft)
    obtain ⟨hrightMem, hrightOperand⟩ :=
      List.mem_filter.mp (List.mem_of_head? hright)
    have hleftPlace : left.place < entry.place :=
      (List.pairwise_append.mp hincrease).2.2 left hleftMem entry
        List.mem_cons_self
    have hmem : ∀ other ∈ before ++ entry :: behind, other ∈ order :=
      fun other hother => hall.perm.mem_iff.mpr hother
    refine ⟨left, right, hleft, hright, ?_, ?_⟩
    · refine sublist_of_not_within hall.mayPrecede (hmem entry hentry)
        (hmem left (List.mem_append_left _ hleftMem)) hoperator hleftOperand ?_
      rintro ⟨between, _, _, hfrom, hupto⟩
      omega
    · exact sublist_of_not_within hall.mayPrecede (hmem entry hentry)
        (hmem right
          (List.mem_append_right _ (List.mem_cons_of_mem _ hrightMem)))
        hoperator hrightOperand
        (not_within_of_head? hincrease hoperator hright)

/-- Every text with a postfix form has an order that the form writes. -/
theorem Arranges.exists_postfixOrder {parts : List Lexeme}
    {items : List PostfixItem} (harranges : Arranges true [] parts items) :
    ∃ order, order.map PlacedItem.item = items ∧
      PostfixOrder (placedItems 0 parts) order := by
  have hwaits : WaitsOn [] [] := rfl
  obtain ⟨order, hall⟩ := harranges.exists_waitingOrder
    (List.Subset.refl (placedItems 0 parts)) hwaits nofun nofun
  refine ⟨order, hall.items_eq, hall.postfixOrder places_increase ?_ ?_⟩
  · exact harranges.exists_operand_before (List.Subset.refl _) nofun
  · exact harranges.exists_operand_behind

end LineScript
