/-
Where a token stands in a line.  Words end at any blank, but the place of a token
is searched for between spaces, so the search passes over a word that another
blank joins to its neighbour.  It finds the first place where spaces part the
token from the words beside it, and that is the first place of the word exactly
if spaces part it from its neighbours there.
-/
import LineScript.Diagnostic
import LineScript.Proofs.WordPieces
import Mathlib.Data.Nat.Find
import Mathlib.Order.Bounds.Basic

namespace LineScript

/-- The byte offsets at which a word stands in a text.  What is on each side of
the word, read away from it, has a given property. -/
def placesIn (parted : List Char → Prop) (text word : List Char) : Set Nat :=
  { place | ∃ before behind, text = before ++ word ++ behind ∧
      byteCount before = place ∧ parted before.reverse ∧ parted behind }

/-- The text is empty or starts with a blank. -/
def BlankFirst (text : List Char) : Prop :=
  ∀ c ∈ text.head?, isBlank c = true

/-- The text has no word, or a space in front of its first word. -/
def SpaceFirst (text : List Char) : Prop :=
  ∀ c ∈ text.find? (fun c => c == ' ' || !isBlank c), c = ' '

instance : DecidablePred BlankFirst := fun text =>
  decidable_of_iff (text.head?.all isBlank = true)
    (by simp [BlankFirst, Option.all_eq_true])

instance : DecidablePred SpaceFirst := fun text =>
  decidable_of_iff
    ((text.find? fun c => c == ' ' || !isBlank c).all (· == ' ') = true)
    (by simp [SpaceFirst, Option.all_eq_true])

/-- The byte offsets at which a token is a word of a line: it stands between
blanks, or at an end. -/
def wordPlaces (line token : String) : Set Nat :=
  placesIn BlankFirst line.toList token.toList

/-- The byte offsets at which a token is a word of a line and a space stands
between it and each word beside it, whatever other blanks do. -/
def spacedPlaces (line token : String) : Set Nat :=
  placesIn SpaceFirst line.toList token.toList

section Parted

variable {text : List Char}

theorem blankFirst_append_blank {c : Char} (hblank : isBlank c = true)
    (near far : List Char) :
    BlankFirst (near ++ c :: far) ↔ BlankFirst near := by
  cases near with
  | nil => simp [BlankFirst, hblank]
  | cons first later => rfl

theorem blankFirst_iff_of_uncut (huncut : ∀ c ∈ text, isBlank c = false) :
    BlankFirst text ↔ text = [] := by
  cases text with
  | nil => simp [BlankFirst]
  | cons first later => simp [BlankFirst, huncut first List.mem_cons_self]

theorem spaceFirst_append_space (near far : List Char) :
    SpaceFirst (near ++ ' ' :: far) ↔ SpaceFirst near := by
  unfold SpaceFirst
  rw [List.find?_append]
  cases near.find? (fun c => c == ' ' || !isBlank c) with
  | none => simp
  | some c => rfl

theorem spaceFirst_iff_of_uncut (huncut : ∀ c ∈ text, c ≠ ' ') :
    SpaceFirst text ↔ ∀ c ∈ text, isBlank c = true := by
  constructor
  · intro hspace c hc
    by_contra hword
    obtain ⟨found, hfound⟩ : ∃ found,
        text.find? (fun c => c == ' ' || !isBlank c) = some found :=
      Option.isSome_iff_exists.mp
        (List.find?_isSome.mpr ⟨c, hc, by simp [hword]⟩)
    exact huncut found (List.mem_of_find?_eq_some hfound) (hspace found hfound)
  · intro hblank c hc
    have hstops := List.find?_some hc
    simpa [hblank c (List.mem_of_find?_eq_some hc)] using hstops

theorem SpaceFirst.blankFirst (hspace : SpaceFirst text) :
    BlankFirst text := by
  cases text with
  | nil => exact nofun
  | cons first later =>
      intro c hc
      obtain rfl := Option.some.inj hc
      by_contra hword
      have hfirst : first = ' ' := hspace first (by simp [hword])
      exact hword (by rw [hfirst]; decide)

theorem BlankFirst.spaceFirst (hblank : BlankFirst text)
    (hspaces : ∀ c ∈ text, isBlank c = true → c = ' ') :
    SpaceFirst text := by
  cases text with
  | nil => exact nofun
  | cons first later =>
      obtain rfl : first = ' ' :=
        hspaces first List.mem_cons_self (hblank first rfl)
      intro c hc
      exact (Option.some.inj hc).symm

end Parted

theorem spacedPlaces_subset (line token : String) :
    spacedPlaces line token ⊆ wordPlaces line token := by
  rintro place ⟨before, behind, hline, hplace, hbefore, hbehind⟩
  exact ⟨before, behind, hline, hplace, hbefore.blankFirst,
    hbehind.blankFirst⟩

section Word

variable {word : List Char} (hnonempty : word ≠ [])
  (hword : ∀ c ∈ word, isBlank c = false)

include hnonempty in
/-- A word without a separator ends in front of the separator or starts behind
it. -/
theorem word_beside_separator {separator : Char} (hseparator : separator ∉ word)
    {front behind before after : List Char}
    (htext : front ++ separator :: behind = before ++ word ++ after) :
    (∃ gap, front = before ++ word ++ gap ∧
        after = gap ++ separator :: behind) ∨
      ∃ gap, before = front ++ separator :: gap ∧
        behind = gap ++ word ++ after := by
  rw [List.append_assoc] at htext
  rcases List.append_eq_append_iff.mp htext with
    ⟨between, rfl, hbehind⟩ | ⟨between, rfl, hrest⟩
  · cases between with
    | nil =>
        -- The word would start with the separator.
        cases word with
        | nil => contradiction
        | cons first later =>
            obtain ⟨rfl, -⟩ := List.cons.inj hbehind
            exact absurd List.mem_cons_self hseparator
    | cons first gap =>
        obtain ⟨rfl, rfl⟩ := List.cons.inj hbehind
        exact Or.inr ⟨gap, rfl, (List.append_assoc gap word after).symm⟩
  · rcases List.append_eq_append_iff.mp hrest with
      ⟨gap, rfl, rfl⟩ | ⟨rest, rfl, hbehind⟩
    · exact Or.inl ⟨gap, (List.append_assoc before word gap).symm, rfl⟩
    · cases rest with
      | nil => exact Or.inl ⟨[], by simp, hbehind.symm⟩
      | cons first later =>
          obtain ⟨rfl, -⟩ := List.cons.inj hbehind
          exact absurd (by simp) hseparator

include hnonempty in
/-- A word stands in front of a separator or behind it, where the separator hides
from the word what is beyond it. -/
theorem placesIn_append_separator {parted : List Char → Prop}
    {separator : Char} (hseparator : separator ∉ word)
    (hparted : ∀ near far,
      parted (near ++ separator :: far) ↔ parted near)
    (front behind : List Char) :
    placesIn parted (front ++ separator :: behind) word =
      placesIn parted front word ∪
        (byteCount (front ++ [separator]) + ·) ''
          placesIn parted behind word := by
  have hcount : ∀ gap, byteCount (front ++ [separator]) + byteCount gap =
      byteCount (front ++ separator :: gap) := by
    intro gap
    rw [← byteCount_append, List.append_assoc, List.singleton_append]
  have hfar : ∀ gap, parted (front ++ separator :: gap).reverse ↔
      parted gap.reverse := by
    intro gap
    rw [List.reverse_append, List.reverse_cons, List.append_assoc,
      List.singleton_append, hparted]
  ext place
  constructor
  · rintro ⟨before, after, htext, rfl, hbefore, hafter⟩
    rcases word_beside_separator hnonempty hseparator htext with
      ⟨gap, hfront, rfl⟩ | ⟨gap, rfl, hbehind⟩
    · exact Or.inl ⟨before, gap, hfront, rfl, hbefore,
        (hparted gap behind).mp hafter⟩
    · exact Or.inr ⟨byteCount gap, ⟨gap, after, hbehind, rfl,
        (hfar gap).mp hbefore, hafter⟩, hcount gap⟩
  · rintro (⟨before, after, rfl, rfl, hbefore, hafter⟩ |
      ⟨_, ⟨before, after, rfl, rfl, hbefore, hafter⟩, rfl⟩)
    · exact ⟨before, after ++ separator :: behind, by simp, rfl, hbefore,
        (hparted after behind).mpr hafter⟩
    · exact ⟨front ++ separator :: before, after, by simp,
        (hcount before).symm, (hfar before).mpr hbefore, hafter⟩

include hnonempty hword in
/-- The words of a text are those that stand somewhere in it. -/
theorem mem_charWords_iff (text : List Char) :
    word ∈ charWords text ↔ (placesIn BlankFirst text word).Nonempty := by
  induction text using cut_induction isBlank with
  | uncut text huncut =>
      rw [charWords, pieces_of_forall huncut]
      constructor
      · intro hmem
        obtain rfl : word = text :=
          List.mem_singleton.mp (List.mem_filter.mp hmem).1
        exact ⟨0, [], [], by simp, rfl, by decide, by decide⟩
      · rintro ⟨place, before, behind, rfl, -, hbefore, hbehind⟩
        rw [blankFirst_iff_of_uncut (by simp_all)] at hbefore hbehind
        simp_all
  | cut front c behind hfront hc ihfront ihbehind =>
      have hseparator : c ∉ word := by
        intro hmem
        rw [hword c hmem] at hc
        contradiction
      rw [charWords_append_blank hc, List.mem_append, ihfront, ihbehind,
        placesIn_append_separator hnonempty hseparator
          (blankFirst_append_blank hc), Set.union_nonempty,
        Set.image_nonempty]

include hnonempty hword in
theorem trimFront_append {before : List Char}
    (hbefore : ∀ c ∈ before, isBlank c = true) (behind : List Char) :
    trimFront (before ++ (word ++ behind)) = word ++ behind := by
  cases word with
  | nil => contradiction
  | cons first later =>
      rw [trimFront, List.dropWhile_append_of_pos hbefore]
      exact List.dropWhile_cons_of_neg
        (by simp [hword first List.mem_cons_self])

include hnonempty hword in
/-- A word between blanks is what is left of the text without blanks around it. -/
theorem trimBlank_append {before behind : List Char}
    (hbefore : ∀ c ∈ before, isBlank c = true)
    (hbehind : ∀ c ∈ behind, isBlank c = true) :
    trimBlank (before ++ word ++ behind) = word := by
  have hback : trimFront (behind.reverse ++ (word.reverse ++ [])) =
      word.reverse ++ [] :=
    trimFront_append (by simpa using hnonempty) (by simpa using hword)
      (by simpa using hbehind) []
  rw [trimBlank, List.append_assoc,
    trimFront_append hnonempty hword hbefore, List.reverse_append]
  simpa using congrArg List.reverse hback

include hnonempty hword in
theorem takeWhile_isBlank_append {before : List Char}
    (hbefore : ∀ c ∈ before, isBlank c = true) (behind : List Char) :
    (before ++ word ++ behind).takeWhile isBlank = before := by
  have hrest : (before ++ (word ++ behind)).dropWhile isBlank =
      word ++ behind := trimFront_append hnonempty hword hbefore behind
  have hwhole := List.takeWhile_append_dropWhile (p := isBlank)
    (l := before ++ (word ++ behind))
  rw [hrest] at hwhole
  rw [List.append_assoc, List.append_cancel_right hwhole]

/-- What is trimmed off a text are blanks. -/
theorem exists_trimBlank (text : List Char) :
    ∃ before behind, text = before ++ trimBlank text ++ behind ∧
      (∀ c ∈ before, isBlank c = true) ∧ ∀ c ∈ behind, isBlank c = true := by
  refine ⟨text.takeWhile isBlank,
    ((trimFront text).reverse.takeWhile isBlank).reverse, ?_,
    List.all_eq_true.mp List.all_takeWhile, ?_⟩
  · rw [List.append_assoc, trimBlank, trimFront, ← List.reverse_append,
      List.takeWhile_append_dropWhile, List.reverse_reverse, trimFront,
      List.takeWhile_append_dropWhile]
  · intro c hc
    exact List.all_eq_true.mp List.all_takeWhile c (List.mem_reverse.mp hc)

include hnonempty hword in
/-- In a text without spaces, a word with no other word beside it is what is left
without the blanks around it. -/
theorem mem_placesIn_of_uncut {text : List Char}
    (huncut : ∀ c ∈ text, c ≠ ' ') (place : Nat) :
    place ∈ placesIn SpaceFirst text word ↔
      trimBlank text = word ∧ byteCount (text.takeWhile isBlank) = place := by
  have hsides : ∀ before behind, text = before ++ word ++ behind →
      (SpaceFirst before.reverse ↔ ∀ c ∈ before, isBlank c = true) ∧
        (SpaceFirst behind ↔ ∀ c ∈ behind, isBlank c = true) := by
    rintro before behind rfl
    simp only [List.mem_append] at huncut
    have hfront : SpaceFirst before.reverse ↔
        ∀ c ∈ before.reverse, isBlank c = true :=
      spaceFirst_iff_of_uncut fun c hc =>
        huncut c (Or.inl (Or.inl (List.mem_reverse.mp hc)))
    simp only [List.mem_reverse] at hfront
    exact ⟨hfront, spaceFirst_iff_of_uncut fun c hc => huncut c (Or.inr hc)⟩
  constructor
  · rintro ⟨before, behind, htext, rfl, hbefore, hbehind⟩
    rw [(hsides before behind htext).1] at hbefore
    rw [(hsides before behind htext).2] at hbehind
    rw [htext, takeWhile_isBlank_append hnonempty hword hbefore]
    exact ⟨trimBlank_append hnonempty hword hbefore hbehind, rfl⟩
  · rintro ⟨htrim, rfl⟩
    obtain ⟨before, behind, htext, hbefore, hbehind⟩ := exists_trimBlank text
    rw [htrim] at htext
    refine ⟨before, behind, htext, ?_, (hsides before behind htext).1.mpr hbefore,
      (hsides before behind htext).2.mpr hbehind⟩
    rw [htext, takeWhile_isBlank_append hnonempty hword hbefore]

end Word

/-- The least of some places is found, or nothing if there is none. -/
def FirstOf (places : Set Nat) (found : Option Nat) : Prop :=
  ∀ place, found = some place ↔ IsLeast places place

section FirstOf

variable {places fewer : Set Nat} {found : Option Nat}

theorem firstOf_some {place : Nat} (hleast : IsLeast places place) :
    FirstOf places (some place) := by
  intro other
  rw [Option.some.injEq]
  constructor
  · rintro rfl
    exact hleast
  · exact hleast.unique

theorem firstOf_none : FirstOf ∅ none := by
  intro place
  simp [IsLeast]

theorem exists_isLeast (hplaces : places.Nonempty) :
    ∃ place, IsLeast places place := by
  classical
  exact ⟨Nat.find hplaces, Nat.find_spec hplaces,
    fun _ hplace => Nat.find_min' hplaces hplace⟩

theorem FirstOf.eq_none_iff (hfound : FirstOf places found) :
    found = none ↔ places = ∅ := by
  constructor
  · rintro rfl
    by_contra hplaces
    obtain ⟨place, hleast⟩ :=
      exists_isLeast (Set.nonempty_iff_ne_empty.mpr hplaces)
    exact absurd ((hfound place).mpr hleast) (by simp)
  · rintro rfl
    cases found with
    | none => rfl
    | some place => exact absurd ((hfound place).mp rfl).1 (by simp)

/-- What is found among fewer places is the first of all places exactly if the
first of all places is among the fewer. -/
theorem FirstOf.of_subset_iff (hfound : FirstOf fewer found)
    (hsubset : fewer ⊆ places) :
    FirstOf places found ↔
      ∀ place, IsLeast places place → place ∈ fewer := by
  constructor
  · intro hfirst place hleast
    exact ((hfound place).mp ((hfirst place).mpr hleast)).1
  · intro hleast
    have hagree : ∀ place, IsLeast places place → IsLeast fewer place :=
      fun place hplace => ⟨hleast place hplace,
        fun other hother => hplace.2 (hsubset hother)⟩
    intro place
    rw [hfound place]
    refine ⟨fun hfewer => ?_, hagree place⟩
    obtain ⟨first, hfirst⟩ := exists_isLeast ⟨place, hsubset hfewer.1⟩
    rwa [hfewer.unique (hagree first hfirst)]

end FirstOf

section Search

variable {word : List Char} (hnonempty : word ≠ [])
  (hword : ∀ c ∈ word, isBlank c = false)

theorem tokenOffset?_singleton (word : List Char) (offset : Nat)
    (piece : List Char) :
    tokenOffset? word offset [piece] =
      if trimBlank piece = word then
        some (offset + byteCount (piece.takeWhile isBlank))
      else none :=
  rfl

include hnonempty hword in
theorem firstOf_tokenOffset?_of_uncut {text : List Char}
    (huncut : ∀ c ∈ text, c ≠ ' ') (offset : Nat) :
    FirstOf ((offset + ·) '' placesIn SpaceFirst text word)
      (tokenOffset? word offset [text]) := by
  rw [tokenOffset?_singleton]
  split
  · next htrim =>
    refine firstOf_some ⟨⟨_, ?_, rfl⟩, ?_⟩
    · exact (mem_placesIn_of_uncut hnonempty hword huncut _).mpr ⟨htrim, rfl⟩
    · rintro _ ⟨other, hother, rfl⟩
      obtain ⟨-, rfl⟩ :=
        (mem_placesIn_of_uncut hnonempty hword huncut other).mp hother
      exact Nat.le_refl _
  · next htrim =>
    have hnowhere : placesIn SpaceFirst text word = ∅ := by
      rw [Set.eq_empty_iff_forall_notMem]
      intro place hplace
      exact htrim
        ((mem_placesIn_of_uncut hnonempty hword huncut place).mp hplace).1
    rw [hnowhere, Set.image_empty]
    exact firstOf_none

include hnonempty hword in
theorem placesIn_append_space (front behind : List Char) (offset : Nat) :
    (offset + ·) '' placesIn SpaceFirst (front ++ ' ' :: behind) word =
      (offset + ·) '' placesIn SpaceFirst front word ∪
        (offset + byteCount front + 1 + ·) ''
          placesIn SpaceFirst behind word := by
  have hspace : ' ' ∉ word := by
    intro hmem
    exact absurd (hword ' ' hmem) (by decide)
  have hbytes : byteCount (front ++ [' ']) = byteCount front + 1 :=
    byteCount_append front [' ']
  rw [placesIn_append_separator hnonempty hspace spaceFirst_append_space,
    Set.image_union, Set.image_image, hbytes]
  simp only [Nat.add_assoc]

include hnonempty hword in
/-- The search through the pieces between spaces finds the first place of a word
that spaces part from the words beside it. -/
theorem firstOf_tokenOffset? (text : List Char) (offset : Nat) :
    FirstOf ((offset + ·) '' placesIn SpaceFirst text word)
      (tokenOffset? word offset (pieces (· == ' ') text)) := by
  induction text using cut_induction (· == ' ') generalizing offset with
  | uncut text huncut =>
      rw [pieces_of_forall huncut]
      exact firstOf_tokenOffset?_of_uncut hnonempty hword
        (by simpa using huncut) offset
  | cut front c behind hfront hc ihfront ihbehind =>
      obtain rfl : c = ' ' := by simpa using hc
      have hfirst := ihfront offset
      rw [pieces_of_forall hfront, tokenOffset?_singleton] at hfirst
      rw [placesIn_append_space hnonempty hword, pieces_append_cons hfront hc,
        tokenOffset?]
      split
      · next htrim =>
        -- The word is in the first piece, and every later place is behind it.
        rw [if_pos htrim] at hfirst
        obtain ⟨hmem, hleast⟩ := (hfirst _).mp rfl
        have hwhole := congrArg byteCount
          (List.takeWhile_append_dropWhile (p := isBlank) (l := front))
        rw [byteCount_append] at hwhole
        refine firstOf_some ⟨Or.inl hmem, ?_⟩
        rintro _ (hother | ⟨later, -, rfl⟩)
        · exact hleast hother
        · change _ ≤ offset + byteCount front + 1 + later
          omega
      · next htrim =>
        rw [if_neg htrim] at hfirst
        rw [hfirst.eq_none_iff.mp rfl, Set.empty_union]
        exact ihbehind (offset + byteCount front + 1)

end Search

/-- A token is found where it first stands as a word of the line, and is not found
if it is no word of the line. -/
def FindsFirstWord (line token : String) : Prop :=
  FirstOf (wordPlaces line token) (findToken? line token) ∧
    (findToken? line token = none ↔ token ∉ words line)

section Line

variable {line token : String}

theorem wordPlaces_nonempty_iff (htoken : IsWord token) :
    (wordPlaces line token).Nonempty ↔ token ∈ words line := by
  have hnonempty : token.toList ≠ [] := by simpa using htoken.1
  rw [wordPlaces, ← mem_charWords_iff hnonempty htoken.2, words, List.mem_map]
  constructor
  · intro hmem
    exact ⟨token.toList, hmem, String.ofList_toList⟩
  · rintro ⟨piece, hpiece, rfl⟩
    rwa [String.toList_ofList]

theorem firstOf_findToken? (htoken : IsWord token) :
    FirstOf (spacedPlaces line token) (findToken? line token) := by
  have hnonempty : token.toList ≠ [] := by simpa using htoken.1
  have hfirst := firstOf_tokenOffset? hnonempty htoken.2 line.toList 0
  simp only [Nat.zero_add, Set.image_id'] at hfirst
  exact hfirst

/-- A token is found where it first stands as a word exactly if spaces part it there
from the words beside it. -/
theorem findsFirstWord_iff (htoken : IsWord token) :
    FindsFirstWord line token ↔
      ∀ place, IsLeast (wordPlaces line token) place →
        place ∈ spacedPlaces line token := by
  have hfound : FirstOf (spacedPlaces line token) (findToken? line token) :=
    firstOf_findToken? htoken
  rw [← hfound.of_subset_iff (spacedPlaces_subset line token)]
  constructor
  · exact And.left
  · intro hfirst
    refine ⟨hfirst, ?_⟩
    rw [hfirst.eq_none_iff, ← wordPlaces_nonempty_iff htoken,
      Set.not_nonempty_iff_eq_empty]

/-- On a line without other blanks than spaces, a word is found where it first
stands. -/
theorem findsFirstWord_of_spaces (htoken : IsWord token)
    (hspaces : ∀ c ∈ line.toList, isBlank c = true → c = ' ') :
    FindsFirstWord line token := by
  rw [findsFirstWord_iff htoken]
  rintro place ⟨⟨before, behind, hline, hplace, hbefore, hbehind⟩, -⟩
  simp only [hline, List.mem_append] at hspaces
  refine ⟨before, behind, hline, hplace, hbefore.spaceFirst ?_,
    hbehind.spaceFirst fun c hc => hspaces c (Or.inr hc)⟩
  intro c hc
  exact hspaces c (Or.inl (Or.inl (List.mem_reverse.mp hc)))

/-- The search finds the first place where the token is a word and spaces part it
from the words beside it, and nothing if there is no such place.  So it finds the
first place of the word, or nothing where the line has no such word, exactly if
spaces part the word from its neighbours at its first place. -/
theorem findToken?_finds_spaced_word (htoken : IsWord token) :
    (∀ place, findToken? line token = some place ↔
      IsLeast (spacedPlaces line token) place) ∧
    (findToken? line token = none ↔ spacedPlaces line token = ∅) ∧
    spacedPlaces line token ⊆ wordPlaces line token ∧
    ((wordPlaces line token).Nonempty ↔ token ∈ words line) ∧
    (FindsFirstWord line token ↔
      ∀ place, IsLeast (wordPlaces line token) place →
        place ∈ spacedPlaces line token) := by
  have hfound : FirstOf (spacedPlaces line token) (findToken? line token) :=
    firstOf_findToken? htoken
  exact ⟨hfound, hfound.eq_none_iff, spacedPlaces_subset line token,
    wordPlaces_nonempty_iff htoken, findsFirstWord_iff htoken⟩

end Line

/-- A line with the word `b` behind a tab, and twice more behind spaces. -/
def mixedBlanks : String :=
  "\u00e9\tb  b\u3000 b"

/-- The first `b` is passed over and the second is found. -/
theorem mixedBlanks_finds_second_word :
    IsWord "b" ∧ IsLeast (spacedPlaces mixedBlanks "b") 6 ∧
      3 ∈ wordPlaces mixedBlanks "b" ∧ ¬ FindsFirstWord mixedBlanks "b" := by
  have hword : IsWord "b" := by decide +kernel
  have hplace : 3 ∈ wordPlaces mixedBlanks "b" :=
    ⟨"\u00e9\t".toList, "  b\u3000 b".toList, rfl, rfl, by decide +kernel,
      by decide +kernel⟩
  have hfound : findToken? mixedBlanks "b" = some 6 := by decide +kernel
  obtain ⟨hspaced, -⟩ := @findToken?_finds_spaced_word mixedBlanks "b" hword
  refine ⟨hword, (hspaced 6).mp hfound, hplace, ?_⟩
  rintro ⟨hfirst, -⟩
  have hle : 6 ≤ 3 := ((hfirst 6).mp hfound).2 hplace
  contradiction

/-- A word of the line that stands behind a tab is not found, and the caret stands
under the start of the line. -/
theorem tab_hides_word :
    IsWord "f" ∧ "f" ∈ words "call\tf" ∧ 5 ∈ wordPlaces "call\tf" "f" ∧
      findToken? "call\tf" "f" = none ∧
      caretPosition "call\tf" (some "f") = 0 ∧
      ¬ ∀ line token, IsWord token → FindsFirstWord line token := by
  have hword : IsWord "f" := by decide +kernel
  have hmem : "f" ∈ words "call\tf" := by decide +kernel
  have hplace : 5 ∈ wordPlaces "call\tf" "f" :=
    ⟨"call\t".toList, [], rfl, rfl, by decide +kernel, by decide +kernel⟩
  have hmissed : findToken? "call\tf" "f" = none := by decide +kernel
  refine ⟨hword, hmem, hplace, hmissed, by decide +kernel, fun hclaim => ?_⟩
  obtain ⟨-, hnone⟩ := hclaim "call\tf" "f" hword
  exact hnone.mp hmissed hmem

end LineScript
