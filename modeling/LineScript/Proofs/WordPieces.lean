/-
Cutting a text that was put together.  Items without separators come out of the
cut as they went in, so words that were joined by single spaces are the words of
the joined text.
-/
import LineScript.Words

namespace LineScript

theorem pieces_of_forall {α : Type} {separates : α → Bool} {items : List α}
    (hitems : ∀ item ∈ items, separates item = false) :
    pieces separates items = [items] := by
  induction items with
  | nil => rfl
  | cons item later ih =>
      have hlater : ∀ other ∈ later, separates other = false := by
        intro other hother
        exact hitems other (List.mem_cons_of_mem item hother)
      rw [pieces_cons, hitems item List.mem_cons_self, ih hlater]
      rfl

theorem exists_pieces_eq_cons {α : Type} (separates : α → Bool)
    (items : List α) :
    ∃ first later, pieces separates items = first :: later := by
  cases items with
  | nil => exact ⟨[], [], rfl⟩
  | cons item behind =>
      rw [pieces_cons]
      split
      · exact ⟨[], _, rfl⟩
      · cases pieces separates behind with
        | nil => exact ⟨[item], [], rfl⟩
        | cons first later => exact ⟨item :: first, later, rfl⟩

/-- A cut at a separator parts the pieces in front of it from those behind it. -/
theorem pieces_append_separator {α : Type} {separates : α → Bool}
    {separator : α} (hseparator : separates separator = true)
    (front behind : List α) :
    pieces separates (front ++ separator :: behind) =
      pieces separates front ++ pieces separates behind := by
  induction front with
  | nil => simp [pieces_cons, hseparator]
  | cons item rest ih =>
      obtain ⟨first, later, hpieces⟩ := exists_pieces_eq_cons separates rest
      rw [List.cons_append, pieces_cons, pieces_cons, ih, hpieces]
      split
      · rfl
      · rfl

theorem pieces_append_cons {α : Type} {separates : α → Bool}
    {items : List α} (hitems : ∀ item ∈ items, separates item = false)
    {separator : α} (hseparator : separates separator = true)
    (behind : List α) :
    pieces separates (items ++ separator :: behind) =
      items :: pieces separates behind := by
  rw [pieces_append_separator hseparator, pieces_of_forall hitems]
  rfl

/-- Items that do not separate go to the first piece of what stands behind. -/
theorem pieces_append {α : Type} {separates : α → Bool} {items : List α}
    (hitems : ∀ item ∈ items, separates item = false)
    {behind first : List α} {later : List (List α)}
    (hbehind : pieces separates behind = first :: later) :
    pieces separates (items ++ behind) = (items ++ first) :: later := by
  induction items with
  | nil => exact hbehind
  | cons item rest ih =>
      have hrest : ∀ other ∈ rest, separates other = false := by
        intro other hother
        exact hitems other (List.mem_cons_of_mem item hother)
      rw [List.cons_append, pieces_cons, hitems item List.mem_cons_self,
        ih hrest]
      rfl

/-- Pieces that are joined come out of the cut again. -/
theorem pieces_intercalate {α : Type} {separates : α → Bool} {separator : α}
    (hseparator : separates separator = true) {parts : List (List α)}
    (hnonempty : parts ≠ [])
    (hparts : ∀ part ∈ parts, ∀ item ∈ part, separates item = false) :
    pieces separates ([separator].intercalate parts) = parts := by
  induction parts with
  | nil => contradiction
  | cons part later ih =>
      obtain ⟨hpart, hlater⟩ := List.forall_mem_cons.mp hparts
      cases later with
      | nil => rw [List.intercalate_singleton, pieces_of_forall hpart]
      | cons next rest =>
          rw [List.intercalate_cons_cons, List.append_assoc,
            List.singleton_append, pieces_append_cons hpart hseparator,
            ih (List.cons_ne_nil next rest) hlater]

/-- There is no separator in a piece. -/
theorem separates_of_mem_pieces {α : Type} {separates : α → Bool}
    {items piece : List α} (hpiece : piece ∈ pieces separates items) :
    ∀ item ∈ piece, separates item = false := by
  induction items generalizing piece with
  | nil =>
      obtain rfl := List.mem_singleton.mp hpiece
      exact nofun
  | cons item behind ih =>
      rw [pieces_cons] at hpiece
      split at hpiece
      · rcases List.mem_cons.mp hpiece with rfl | hbehind
        · exact nofun
        · exact ih hbehind
      · next hkept =>
        obtain ⟨first, later, hpieces⟩ := exists_pieces_eq_cons separates behind
        rw [hpieces] at hpiece ih
        rcases List.mem_cons.mp hpiece with rfl | hlater
        · exact List.forall_mem_cons.mpr
            ⟨by simpa using hkept, ih List.mem_cons_self⟩
        · exact ih (List.mem_cons_of_mem first hlater)

theorem mem_of_mem_intercalate {α : Type} {item separator : α}
    {parts : List (List α)} (hitem : item ∈ [separator].intercalate parts) :
    item = separator ∨ ∃ part ∈ parts, item ∈ part := by
  induction parts with
  | nil => simp at hitem
  | cons part later ih =>
      cases later with
      | nil =>
          rw [List.intercalate_singleton] at hitem
          exact Or.inr ⟨part, List.mem_cons_self, hitem⟩
      | cons next rest =>
          rw [List.intercalate_cons_cons, List.mem_append, List.mem_append,
            List.mem_singleton] at hitem
          rcases hitem with (hpart | hseparator) | hlater
          · exact Or.inr ⟨part, List.mem_cons_self, hpart⟩
          · exact Or.inl hseparator
          · rcases ih hlater with hseparator | ⟨other, hother, hmem⟩
            · exact Or.inl hseparator
            · exact Or.inr ⟨other, List.mem_cons_of_mem _ hother, hmem⟩

/-- Cutting at some of the separators first, and then each piece at all of them,
makes the same pieces as cutting once. -/
theorem pieces_flatMap_pieces {α : Type} {coarse fine : α → Bool}
    (hcoarse : ∀ item, coarse item = true → fine item = true) (items : List α) :
    (pieces coarse items).flatMap (pieces fine) = pieces fine items := by
  induction items with
  | nil => rfl
  | cons item behind ih =>
      obtain ⟨first, later, hpieces⟩ := exists_pieces_eq_cons coarse behind
      cases hcuts : coarse item with
      | true =>
          simp only [pieces_cons, hcuts, hcoarse item hcuts, if_true,
            List.flatMap_cons, pieces_nil, ih]
          rfl
      | false =>
          rw [hpieces, List.flatMap_cons] at ih
          simp only [pieces_cons, hcuts, hpieces, Bool.false_eq_true, if_false,
            growFirst, List.flatMap_cons]
          cases fine item with
          | true => simp [← ih]
          | false =>
              obtain ⟨front, rest, hfirst⟩ := exists_pieces_eq_cons fine first
              simp [← ih, hfirst]

section Cut

variable {stops : Char → Bool} {front : List Char}

theorem cutAt_fst (stops : Char → Bool) (text : List Char) :
    (cutAt stops text).1 = text.takeWhile fun c => !stops c := by
  have hwhole := List.takeWhile_append_dropWhile
    (p := fun c => !stops c) (l := text)
  unfold cutAt
  split
  · next hbehind => rw [hbehind, List.append_nil] at hwhole
                    exact hwhole.symm
  · rfl

theorem cutAt_of_forall (hfront : ∀ c ∈ front, stops c = false) :
    cutAt stops front = (front, none) := by
  have hpasses : ∀ c ∈ front, (!stops c) = true := by simpa using hfront
  have hnone : (front ++ []).dropWhile (fun c => !stops c) = [] :=
    List.dropWhile_append_of_pos hpasses
  rw [List.append_nil] at hnone
  rw [cutAt, hnone]

/-- A text is cut at the first character that stops it. -/
theorem cutAt_append_cons (hfront : ∀ c ∈ front, stops c = false) {c : Char}
    (hc : stops c = true) (behind : List Char) :
    cutAt stops (front ++ c :: behind) = (front, some behind) := by
  have hpasses : ∀ d ∈ front, (!stops d) = true := by simpa using hfront
  rw [cutAt, List.dropWhile_append_of_pos hpasses,
    List.takeWhile_append_of_pos hpasses]
  simp [hc]

theorem exists_cut (stops : Char → Bool) (text : List Char) :
    (∀ c ∈ text, stops c = false) ∨
      ∃ front c behind, text = front ++ c :: behind ∧
        (∀ d ∈ front, stops d = false) ∧ stops c = true := by
  induction text with
  | nil => exact Or.inl nofun
  | cons first later ih =>
      cases hfirst : stops first with
      | true => exact Or.inr ⟨[], first, later, rfl, nofun, hfirst⟩
      | false =>
          rcases ih with hlater | ⟨front, c, behind, rfl, hfront, hc⟩
          · exact Or.inl (List.forall_mem_cons.mpr ⟨hfirst, hlater⟩)
          · have hlonger : ∀ d ∈ first :: front, stops d = false :=
              List.forall_mem_cons.mpr ⟨hfirst, hfront⟩
            exact Or.inr ⟨first :: front, c, behind, rfl, hlonger, hc⟩

/-- Induction over a text from its last piece to its first. -/
theorem cut_induction (stops : Char → Bool) {motive : List Char → Prop}
    (uncut : ∀ text, (∀ c ∈ text, stops c = false) → motive text)
    (cut : ∀ front c behind, (∀ d ∈ front, stops d = false) →
      stops c = true → motive front → motive behind →
      motive (front ++ c :: behind))
    (text : List Char) : motive text := by
  rcases exists_cut stops text with
    huncut | ⟨front, c, behind, rfl, hfront, hc⟩
  · exact uncut text huncut
  · exact cut front c behind hfront hc (uncut front hfront)
      (cut_induction stops uncut cut behind)
termination_by text.length

end Cut

/-- A word is not empty and has no blanks. -/
def IsWord (token : String) : Prop :=
  token ≠ "" ∧ ∀ c ∈ token.toList, isBlank c = false

instance (token : String) : Decidable (IsWord token) :=
  decidable_of_iff
    (token ≠ "" ∧ (token.toList.all fun c => !isBlank c) = true)
    (by simp [IsWord])

/-- The words of a text are words. -/
theorem isWord_of_mem_words {text token : String}
    (htoken : token ∈ words text) : IsWord token := by
  obtain ⟨piece, hpiece, rfl⟩ := List.mem_map.mp htoken
  obtain ⟨hcut, hnonempty⟩ := List.mem_filter.mp hpiece
  refine ⟨?_, ?_⟩
  · simpa using hnonempty
  · rw [String.toList_ofList]
    exact separates_of_mem_pieces hcut

/-- A blank parts the words in front of it from those behind it. -/
theorem charWords_append_blank {c : Char} (hblank : isBlank c = true)
    (front behind : List Char) :
    charWords (front ++ c :: behind) = charWords front ++ charWords behind := by
  rw [charWords, pieces_append_separator hblank, List.filter_append]
  rfl

/-- A blank at the end of a text belongs to no word. -/
theorem charWords_concat {c : Char} (hblank : isBlank c = true)
    (text : List Char) : charWords (text ++ [c]) = charWords text := by
  rw [charWords_append_blank hblank]
  exact List.append_nil (charWords text)

theorem charWords_intercalate {texts : List (List Char)}
    (htexts : ∀ text ∈ texts, text ≠ [] ∧ ∀ c ∈ text, isBlank c = false) :
    charWords ([' '].intercalate texts) = texts := by
  by_cases hempty : texts = []
  · rw [hempty]
    rfl
  · rw [charWords, pieces_intercalate (by decide) hempty fun text htext =>
      (htexts text htext).2]
    apply List.filter_eq_self.mpr
    intro text htext
    simpa using (htexts text htext).1

theorem words_intercalate {tokens : List String}
    (htokens : ∀ token ∈ tokens, IsWord token) :
    words (" ".intercalate tokens) = tokens := by
  have htexts : ∀ text ∈ tokens.map String.toList,
      text ≠ [] ∧ ∀ c ∈ text, isBlank c = false := by
    intro text htext
    obtain ⟨token, htoken, rfl⟩ := List.mem_map.mp htext
    obtain ⟨hnonempty, hblank⟩ := htokens token htoken
    exact ⟨by simpa using hnonempty, hblank⟩
  have hlist : (" ".intercalate tokens).toList =
      [' '].intercalate (tokens.map String.toList) := by
    rw [String.toList_intercalate]
    rfl
  rw [words, hlist, charWords_intercalate htexts, List.map_map]
  simp

end LineScript
