/-! Pieces of a text between two byte offsets of its UTF-8 form. -/
namespace EntityStore.Text

/-- Number of bytes of the UTF-8 form. -/
def byteSize : List Char → Nat
  | [] => 0
  | c :: cs => c.utf8Size + byteSize cs

/-- What follows the first `n` bytes; none past the end or inside a character. -/
def dropBytes? : Nat → List Char → Option (List Char)
  | 0, cs => some cs
  | _ + 1, [] => none
  | n + 1, c :: cs => if c.utf8Size ≤ n + 1 then dropBytes? (n + 1 - c.utf8Size) cs else none

/-- The first `n` bytes; none past the end or inside a character. -/
def takeBytes? : Nat → List Char → Option (List Char)
  | 0, _ => some []
  | _ + 1, [] => none
  | n + 1, c :: cs =>
    if c.utf8Size ≤ n + 1 then (takeBytes? (n + 1 - c.utf8Size) cs).map (c :: ·) else none

/-- The piece from one offset to another; none unless both are ends of characters, in order. -/
def slice? (start stop : Nat) (cs : List Char) : Option (List Char) :=
  if start ≤ stop then (dropBytes? start cs).bind (takeBytes? (stop - start)) else none

theorem byteSize_append (xs ys : List Char) : byteSize (xs ++ ys) = byteSize xs + byteSize ys := by
  induction xs with
  | nil => simp [byteSize]
  | cons c cs ih => simp [byteSize, ih, Nat.add_assoc]

theorem dropBytes?_byteSize_append (xs ys : List Char) :
    dropBytes? (byteSize xs) (xs ++ ys) = some ys := by
  induction xs with
  | nil => simp [byteSize, dropBytes?]
  | cons c cs ih =>
    have hpos : 0 < c.utf8Size := c.utf8Size_pos
    obtain ⟨n, hn⟩ : ∃ n, byteSize (c :: cs) = n + 1 :=
      ⟨c.utf8Size + byteSize cs - 1, by simp only [byteSize]; omega⟩
    have hsub : n + 1 - c.utf8Size = byteSize cs := by rw [← hn]; simp [byteSize]
    have hle : c.utf8Size ≤ n + 1 := by rw [← hn]; simp [byteSize]
    simp [hn, dropBytes?, hle, hsub, ih]

theorem takeBytes?_byteSize_append (xs ys : List Char) :
    takeBytes? (byteSize xs) (xs ++ ys) = some xs := by
  induction xs with
  | nil => simp [byteSize, takeBytes?]
  | cons c cs ih =>
    have hpos : 0 < c.utf8Size := c.utf8Size_pos
    obtain ⟨n, hn⟩ : ∃ n, byteSize (c :: cs) = n + 1 :=
      ⟨c.utf8Size + byteSize cs - 1, by simp only [byteSize]; omega⟩
    have hsub : n + 1 - c.utf8Size = byteSize cs := by rw [← hn]; simp [byteSize]
    have hle : c.utf8Size ≤ n + 1 := by rw [← hn]; simp [byteSize]
    simp [hn, takeBytes?, hle, hsub, ih]

end EntityStore.Text
