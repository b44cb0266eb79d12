/-
The words of an input.  An input that can be read has a list of words left, and
taking the next word takes the first of them; what is ready and what is still in
lines makes no difference.  A text has the words of its lines, and bytes that
encode a text are cut into the lines of that text, so an input starts with the
words of its whole text.
-/
import LineScript.InputStream
import LineScript.Proofs.WordPieces

namespace LineScript

namespace InputStream

/-- The words that are left. -/
def remaining (input : InputStream) : List String :=
  input.pending ++ (input.lines.filterMap id).flatMap words

/-- Every line has a text. -/
def Readable (input : InputStream) : Prop :=
  ∀ line ∈ input.lines, line.isSome = true

theorem firstWord_spec {lines : List (Option String)}
    (hlines : ∀ line ∈ lines, line.isSome = true) :
    (firstWord lines).1 =
        .ok ((lines.filterMap id).flatMap words).head? ∧
      (firstWord lines).2.remaining =
        ((lines.filterMap id).flatMap words).tail ∧
      (firstWord lines).2.Readable := by
  induction lines with
  | nil => exact ⟨rfl, rfl, hlines⟩
  | cons line later ih =>
      rw [List.forall_mem_cons] at hlines
      cases line with
      | none => simp at hlines
      | some text =>
          rw [firstWord]
          split
          · next hwords => simpa [hwords] using ih hlines.2
          · next word pending hwords =>
            exact ⟨by simp [hwords], by simp [remaining, hwords], hlines.2⟩

section Readable

variable {input : InputStream}

theorem nextWord_fst (hreadable : input.Readable) :
    input.nextWord.1 = .ok input.remaining.head? := by
  unfold nextWord remaining
  split
  · next word pending hpending => simp [hpending]
  · next hpending =>
    rw [hpending]
    exact (firstWord_spec hreadable).1

theorem remaining_nextWord (hreadable : input.Readable) :
    input.nextWord.2.remaining = input.remaining.tail := by
  unfold nextWord
  split
  · next word pending hpending => simp [remaining, hpending]
  · next hpending =>
    rw [(firstWord_spec hreadable).2.1, remaining, hpending]
    rfl

theorem Readable.nextWord (hreadable : input.Readable) :
    input.nextWord.2.Readable := by
  unfold InputStream.nextWord
  split
  · exact hreadable
  · exact (firstWord_spec hreadable).2.2

end Readable

/-- What comes of taking a number of words one after another, and the input
behind them. -/
def takeWords : Nat → InputStream →
    List (Except Fault (Option String)) × InputStream
  | 0, input => ([], input)
  | count + 1, input =>
    let (word, rest) := input.nextWord
    let (later, behind) := takeWords count rest
    (word :: later, behind)

theorem takeWords_add (first second : Nat) (input : InputStream) :
    takeWords (first + second) input =
      ((takeWords first input).1 ++
          (takeWords second (takeWords first input).2).1,
        (takeWords second (takeWords first input).2).2) := by
  induction first generalizing input with
  | zero => simp [takeWords]
  | succ first ih =>
      rw [Nat.add_right_comm]
      simp only [takeWords, ih]
      rfl

/-- Taking words gives those that are left, in order, and none after the
last. -/
theorem takeWords_of_readable (count : Nat) {input : InputStream}
    (hreadable : input.Readable) :
    (takeWords count input).1 =
        (List.range count).map (fun place => .ok input.remaining[place]?) ∧
      (takeWords count input).2.remaining = input.remaining.drop count ∧
      (takeWords count input).2.Readable := by
  induction count generalizing input with
  | zero => exact ⟨rfl, rfl, hreadable⟩
  | succ count ih =>
      obtain ⟨hwords, hremaining, hbehind⟩ := ih hreadable.nextWord
      rw [remaining_nextWord hreadable] at hwords hremaining
      refine ⟨?_, ?_, hbehind⟩
      · rw [List.range_succ_eq_map, List.map_cons, List.map_map]
        simp only [takeWords, hwords, nextWord_fst hreadable,
          List.head?_eq_getElem?, List.getElem?_tail]
        rfl
      · rw [← List.drop_one, List.drop_drop, Nat.add_comm] at hremaining
        exact hremaining

/-- Two inputs that can be read and have the same words left. -/
structure SameWords (left right : InputStream) : Prop where
  readableLeft : left.Readable
  readableRight : right.Readable
  remaining_eq : right.remaining = left.remaining

end InputStream

section Texts

theorem charWords_flatMap_lines (text : List Char) :
    (pieces (· == '\n') text).flatMap charWords = charWords text := by
  have hblank : ∀ c, (c == '\n') = true → isBlank c = true := by
    intro c hc
    rw [beq_iff_eq.mp hc]
    decide
  unfold charWords
  rw [← pieces_flatMap_pieces hblank text, List.filter_flatMap]

/-- A text has the words of its lines. -/
theorem words_flatMap_lines (text : String) :
    (physicalLines text).flatMap words = words text := by
  unfold words physicalLines
  rw [← charWords_flatMap_lines, List.flatMap_map, List.map_flatMap]
  simp

theorem InputStream.remaining_ofText (text : String) :
    (InputStream.ofText text).remaining = words text := by
  rw [← words_flatMap_lines]
  simp [remaining, ofText]

theorem InputStream.readable_ofText (text : String) :
    (InputStream.ofText text).Readable := by
  intro line hline
  obtain ⟨shown, _, rfl⟩ := List.mem_map.mp hline
  rfl

end Texts

section Bytes

theorem eq_lineFeed_of_toNat {c : Char} (hcode : c.val.toNat = 10) :
    c = '\n' :=
  Char.ext (UInt32.toNat_inj.mp hcode)

/-- The byte of the line feed is in no other code: the bytes of longer codes are
all greater. -/
theorem eq_lineFeed_of_mem {c : Char}
    (hmem : (10 : UInt8) ∈ String.utf8EncodeChar c) : c = '\n' := by
  apply eq_lineFeed_of_toNat
  have hbyte : ∀ n, (10 : UInt8) = UInt8.ofNat n → n % 256 = 10 := by
    intro n hn
    simpa using (congrArg UInt8.toNat hn).symm
  unfold String.utf8EncodeChar at hmem
  simp only at hmem
  split at hmem
  · have hcode := hbyte _ (List.mem_singleton.mp hmem)
    omega
  · split at hmem
    · simp only [List.mem_cons, List.not_mem_nil, or_false] at hmem
      rcases hmem with hmem | hmem <;> have hcode := hbyte _ hmem <;> omega
    · split at hmem
      · simp only [List.mem_cons, List.not_mem_nil, or_false] at hmem
        rcases hmem with hmem | hmem | hmem <;>
          have hcode := hbyte _ hmem <;> omega
      · simp only [List.mem_cons, List.not_mem_nil, or_false] at hmem
        rcases hmem with hmem | hmem | hmem | hmem <;>
          have hcode := hbyte _ hmem <;> omega

/-- Cutting the bytes of a text at line feeds cuts the text there. -/
theorem pieces_utf8Encode (text : List Char) :
    pieces (· == (10 : UInt8)) (text.flatMap String.utf8EncodeChar) =
      (pieces (· == '\n') text).map (·.flatMap String.utf8EncodeChar) := by
  induction text with
  | nil => rfl
  | cons c behind ih =>
      obtain ⟨first, later, hpieces⟩ :=
        exists_pieces_eq_cons (· == '\n') behind
      rw [List.flatMap_cons]
      by_cases hc : c = '\n'
      · subst hc
        change pieces _ (10 :: behind.flatMap String.utf8EncodeChar) = _
        rw [pieces_cons, pieces_cons, ih]
        rfl
      · -- The code of another character goes to the first piece as a whole.
        have hcode : ∀ byte ∈ String.utf8EncodeChar c,
            (byte == (10 : UInt8)) = false := by
          intro byte hbyte
          rw [beq_eq_false_iff_ne]
          rintro rfl
          exact hc (eq_lineFeed_of_mem hbyte)
        rw [hpieces, List.map_cons] at ih
        rw [pieces_append hcode ih, pieces_cons, hpieces, beq_false_of_ne hc]
        rfl

theorem toList_loop_eq (bytes : ByteArray) (place : Nat)
    (front : List UInt8) :
    ByteArray.toList.loop bytes place front =
      front.reverse ++ bytes.data.toList.drop place := by
  fun_induction ByteArray.toList.loop bytes place front with
  | case1 place front hplace ih =>
      have hlength : place < bytes.data.toList.length := by simpa using hplace
      rw [ih, List.drop_eq_getElem_cons hlength]
      simp [ByteArray.get!, hplace]
  | case2 place front hplace =>
      have hlength : bytes.data.toList.length ≤ place := by
        simpa using Nat.le_of_not_lt hplace
      rw [List.drop_eq_nil_of_le hlength, List.append_nil]

theorem toList_toByteArray (bytes : List UInt8) :
    bytes.toByteArray.toList = bytes := by
  rw [ByteArray.toList, toList_loop_eq, List.toList_data_toByteArray]
  rfl

theorem fromUTF8?_eq_some_iff {bytes : ByteArray} {text : String} :
    String.fromUTF8? bytes = some text ↔ bytes = text.toByteArray := by
  unfold String.fromUTF8?
  constructor
  · intro hdecode
    split at hdecode
    · obtain rfl := Option.some.inj hdecode
      rfl
    · contradiction
  · rintro rfl
    rw [dif_pos text.isValidUTF8]
    rfl

/-- Bytes that encode a text are read as that text, though each line is decoded
on its own. -/
theorem InputStream.ofBytes_eq_ofText {bytes : ByteArray} {text : String}
    (hdecode : String.fromUTF8? bytes = some text) :
    InputStream.ofBytes bytes = .ofText text := by
  obtain rfl := fromUTF8?_eq_some_iff.mp hdecode
  have hbytes : text.toByteArray.toList =
      text.toList.flatMap String.utf8EncodeChar := by
    rw [← String.utf8Encode_toList, List.utf8Encode, toList_toByteArray]
  unfold ofBytes ofText physicalLines
  rw [hbytes, pieces_utf8Encode, List.map_map, List.map_map]
  congr 1
  apply List.map_congr_left
  intro line _
  apply fromUTF8?_eq_some_iff.mpr
  rw [String.toByteArray_ofList, List.utf8Encode]
  exact ByteArray.ext List.data_toByteArray.symm

end Bytes

end LineScript
