/-
The texts of scope events.  A name may hold anything, also what looks like the rest
of a message, but a message ends with a blank and the digits of a depth, so the
event can be read off its text.
-/
import LineScript.Store

namespace LineScript

/-- A text is cut in one way only at the last blank in it. -/
theorem eq_of_append_blank_eq {front other back behind : List Char}
    (hback : ' ' ∉ back) (hbehind : ' ' ∉ behind)
    (heq : front ++ ' ' :: back = other ++ ' ' :: behind) :
    front = other ∧ back = behind := by
  rcases List.append_eq_append_iff.mp heq with
    ⟨between, rfl, hrest⟩ | ⟨between, rfl, hrest⟩
  · cases between with
    | nil => simpa using hrest
    | cons c later =>
        obtain ⟨_, rfl⟩ := List.cons.inj hrest
        simp at hback
  · cases between with
    | nil => simpa [eq_comm] using hrest
    | cons c later =>
        obtain ⟨_, rfl⟩ := List.cons.inj hrest
        simp at hbehind

theorem blank_notMem_toDigits (number : Nat) :
    ' ' ∉ Nat.toDigits 10 number := by
  intro hmem
  have hdigit := Nat.isDigit_of_mem_toDigits (by decide) (by decide) hmem
  contradiction

theorem eq_of_append_digits_eq {front other : List Char} {first second : Nat}
    (heq : front ++ ' ' :: Nat.toDigits 10 first =
      other ++ ' ' :: Nat.toDigits 10 second) :
    front = other ∧ first = second := by
  obtain ⟨hfront, hdigits⟩ := eq_of_append_blank_eq
    (blank_notMem_toDigits first) (blank_notMem_toDigits second) heq
  refine ⟨hfront, ?_⟩
  have hvalues := congrArg (Nat.ofDigitChars 10 · 0) hdigits
  simpa only [Nat.ofDigitChars_ten_toDigits] using hvalues

namespace ScopeEvent

theorem toList_message_entering (depth : Nat) :
    (entering depth).message.toList =
      "Entering block level".toList ++ ' ' :: Nat.toDigits 10 depth := by
  have hmessage : (entering depth).message =
      "Entering block level " ++ toString depth := rfl
  have hblank : "Entering block level ".toList =
      "Entering block level".toList ++ [' '] := by decide
  rw [hmessage, String.toList_append, Nat.toString_eq_repr, Nat.toList_repr,
    hblank, List.append_assoc, List.singleton_append]

theorem toList_message_evicting (name : String) (depth : Nat) :
    (evicting name depth).message.toList =
      ("Evicting ".toList ++ (name.toList ++ " at block level".toList)) ++
        ' ' :: Nat.toDigits 10 depth := by
  have hmessage : (evicting name depth).message =
      "Evicting " ++ name ++ " at block level " ++ toString depth := rfl
  have hblank : " at block level ".toList =
      " at block level".toList ++ [' '] := by decide
  rw [hmessage, String.toList_append, String.toList_append,
    String.toList_append, Nat.toString_eq_repr, Nat.toList_repr, hblank]
  simp only [List.append_assoc, List.singleton_append]

theorem message_entering_ne (depth : Nat) (name : String) (other : Nat) :
    (entering depth).message ≠ (evicting name other).message := by
  intro heq
  have htexts := congrArg String.toList heq
  rw [toList_message_entering, toList_message_evicting] at htexts
  have hsecond : some 'n' = some 'v' :=
    congrArg (·[1]?) (eq_of_append_digits_eq htexts).1
  contradiction

/-- The texts of different events differ, whatever the names in them are. -/
theorem message_injective : Function.Injective message := by
  intro left right heq
  cases left with
  | entering depth =>
      cases right with
      | entering other =>
          have htexts := congrArg String.toList heq
          rw [toList_message_entering, toList_message_entering] at htexts
          rw [(eq_of_append_digits_eq htexts).2]
      | evicting name other =>
          exact absurd heq (message_entering_ne depth name other)
  | evicting name depth =>
      cases right with
      | entering other =>
          exact absurd heq.symm (message_entering_ne other name depth)
      | evicting otherName other =>
          have htexts := congrArg String.toList heq
          rw [toList_message_evicting, toList_message_evicting] at htexts
          obtain ⟨hfronts, hdepth⟩ := eq_of_append_digits_eq htexts
          have hnames : name.toList = otherName.toList :=
            List.append_cancel_right (List.append_cancel_left hfronts)
          rw [hdepth, String.toList_inj.mp hnames]

end ScopeEvent

end LineScript
