/-
Blank characters and the words they separate.  A text is cut into pieces by one
right fold; words are the non-empty pieces between blanks, and physical lines
are the pieces between line feeds, so one splitting law serves both.
-/
namespace LineScript

/-- The inclusive ranges of code points with the Unicode property
`White_Space`, in increasing order. -/
def blankRanges : List (Nat × Nat) :=
  [(0x0009, 0x000D), (0x0020, 0x0020), (0x0085, 0x0085), (0x00A0, 0x00A0),
    (0x1680, 0x1680), (0x2000, 0x200A), (0x2028, 0x2029), (0x202F, 0x202F),
    (0x205F, 0x205F), (0x3000, 0x3000)]

/-- A character is blank when it has the Unicode property `White_Space`. -/
def isBlank (c : Char) : Bool :=
  blankRanges.any fun range => range.1 ≤ c.toNat && c.toNat ≤ range.2

/-- Puts an item in front of the first piece. -/
def growFirst {α : Type} (item : α) : List (List α) → List (List α)
  | [] => [[item]]
  | piece :: later => (item :: piece) :: later

/-- The pieces of a list between the items that separate.  There is one piece
more than there are separators. -/
def pieces {α : Type} (separates : α → Bool) (items : List α) :
    List (List α) :=
  items.foldr
    (fun item later =>
      if separates item then [] :: later else growFirst item later)
    [[]]

@[simp]
theorem pieces_nil {α : Type} (separates : α → Bool) :
    pieces separates [] = [[]] :=
  rfl

theorem pieces_cons {α : Type} (separates : α → Bool) (item : α)
    (items : List α) :
    pieces separates (item :: items) =
      if separates item then [] :: pieces separates items
      else growFirst item (pieces separates items) :=
  rfl

/-- The maximal runs of characters that are not blank, in order. -/
def charWords (text : List Char) : List (List Char) :=
  (pieces isBlank text).filter fun piece => !piece.isEmpty

/-- The words of a text: its maximal runs of non-blank characters. -/
def words (text : String) : List String :=
  (charWords text.toList).map String.ofList

/-- Drops the blanks in front of a text. -/
def trimFront (text : List Char) : List Char :=
  text.dropWhile isBlank

/-- Drops the blanks on both sides of a text. -/
def trimBlank (text : List Char) : List Char :=
  (trimFront (trimFront text).reverse).reverse

/-- Cuts a text at the first character that satisfies a test.  The second part
is what stands behind that character, if there is one. -/
def cutAt (stops : Char → Bool) (text : List Char) :
    List Char × Option (List Char) :=
  match text.dropWhile fun c => !stops c with
  | [] => (text, none)
  | _ :: behind => (text.takeWhile fun c => !stops c, some behind)

/-- The number of bytes that a text takes in UTF-8. -/
def byteCount (text : List Char) : Nat :=
  (String.ofList text).utf8ByteSize

theorem byteCount_append (front behind : List Char) :
    byteCount (front ++ behind) = byteCount front + byteCount behind := by
  rw [byteCount, String.ofList_append, String.utf8ByteSize_append]
  rfl

end LineScript
