import EntityStore.Proofs.Query.Cuts
import EntityStore.Proofs.Text.Utf8

/-! Keywords found by the byte, every slice and every access checked. No check fails, and what is
found are the keywords between the characters of the text. -/
namespace EntityStore.Position

/-- Why reading by position stops: the text is no query, or a place is out of range. -/
inductive Stop
  | refused (cause : SyntaxError)
  | panic (start stop : ℕ)
deriving DecidableEq, Repr

/-- A cause, but for a cut that fails: that is a place out of range. -/
def Stop.of : SyntaxError → Stop
  | .badCut start stop => .panic start stop
  | cause => .refused cause

section Access

variable {α : Type}

/-- The piece of a text between two bytes. -/
def sliceText (text : List Char) (start stop : ℕ) : Except Stop (List Char) :=
  match Text.slice? start stop text with
  | some piece => .ok piece
  | none => .error (.panic start stop)

/-- The elements from one place to another. -/
def slice (xs : List α) (start stop : ℕ) : Except Stop (List α) :=
  if start ≤ stop ∧ stop ≤ xs.length then .ok ((xs.drop start).take (stop - start))
  else .error (.panic start stop)

def element (xs : List α) (place : ℕ) : Except Stop α :=
  match xs[place]? with
  | some x => .ok x
  | none => .error (.panic place (place + 1))

/-- A difference that must not be negative. -/
def minus (m n : ℕ) : Except Stop ℕ := if n ≤ m then .ok (m - n) else .error (.panic n m)

theorem sliceText_eq_ok {text piece : List Char} {i j : ℕ}
    (h : Text.slice? i j text = some piece) : sliceText text i j = .ok piece := by
  rw [sliceText, h]

theorem sliceText_append (as bs cs : List Char) :
    sliceText (as ++ (bs ++ cs)) (Text.byteSize as) (Text.byteSize as + Text.byteSize bs) =
      .ok bs :=
  sliceText_eq_ok (Text.slice?_append as bs cs)

theorem sliceText_front (front rest : List Char) :
    sliceText (front ++ rest) 0 (Text.byteSize front) = .ok front := by
  simpa [Text.byteSize] using sliceText_append [] front rest

theorem sliceText_rest (front rest : List Char) :
    sliceText (front ++ rest) (Text.byteSize front) (Text.byteSize (front ++ rest)) =
      .ok rest := by
  simpa [Text.byteSize_append] using sliceText_append front rest []

theorem slice_eq_ok {xs : List α} {i j : ℕ} (hle : i ≤ j) (hj : j ≤ xs.length) :
    slice xs i j = .ok ((xs.drop i).take (j - i)) :=
  if_pos ⟨hle, hj⟩

theorem slice_rest {xs : List α} {i : ℕ} (hi : i ≤ xs.length) :
    slice xs i xs.length = .ok (xs.drop i) := by
  rw [slice_eq_ok hi le_rfl, List.take_of_length_le (by simp)]

theorem element_eq_ok {xs : List α} {i : ℕ} {x : α} (h : xs[i]? = some x) :
    element xs i = .ok x := by
  rw [element, h]

/-- A text is cut between characters, in order, or not at all. -/
theorem exists_sliceText_iff {text : List Char} {i j : ℕ} :
    (∃ piece, sliceText text i j = .ok piece) ↔ i ≤ j ∧ j ≤ Text.byteSize text ∧
      Text.IsBoundary text i ∧ Text.IsBoundary text j := by
  have hslice : (∃ piece, sliceText text i j = .ok piece) ↔
      ∃ piece, Text.slice? i j text = some piece := by
    unfold sliceText
    cases Text.slice? i j text <;> simp
  rw [hslice, Text.exists_slice?_iff]
  constructor
  · rintro ⟨hle, hi, hj⟩
    exact ⟨hle, hj.le, hi, hj⟩
  · rintro ⟨hle, -, hi, hj⟩
    exact ⟨hle, hi, hj⟩

theorem exists_slice_iff {xs : List α} {i j : ℕ} :
    (∃ ys, slice xs i j = .ok ys) ↔ i ≤ j ∧ j ≤ xs.length := by
  unfold slice
  split_ifs with h <;> simp [h]

theorem exists_element_iff {xs : List α} {i : ℕ} :
    (∃ x, element xs i = .ok x) ↔ i < xs.length := by
  unfold element
  cases h : xs[i]? with
  | none => simpa using h
  | some x => simpa using (List.getElem?_eq_some_iff.mp h).1

theorem minus_eq_ok {m n : ℕ} (h : n ≤ m) : minus m n = .ok (m - n) := if_pos h

end Access

section Search

/-- Whether two pieces have the same bytes, capital ASCII letters taken for small ones. -/
def sameLetters (xs ys : List UInt8) : Bool :=
  xs.map Text.lowerByte == ys.map Text.lowerByte

/-- Whether the bytes end at a place, or ASCII white space stands there. -/
def wordEndsAt (bytes : List UInt8) (place : ℕ) : Except Stop Bool :=
  if place = bytes.length then return true
  else do
    let behind ← element bytes place
    return Text.isBlankByte behind

/-- Whether a keyword stands at a byte, behind ASCII white space. -/
def keywordAt (bytes keyword : List UInt8) (place : ℕ) : Except Stop Bool := do
  let before ← element bytes (← minus place 1)
  if !Text.isBlankByte before then return false
  let word ← slice bytes place (place + keyword.length)
  if !sameLetters word keyword then return false
  wordEndsAt bytes (place + keyword.length)

/-- The first place of a keyword from a byte on. -/
def searchFrom (bytes keyword : List UInt8) (place : ℕ) : Except Stop (Option ℕ) :=
  if place < bytes.length then
    if bytes.length < place + keyword.length then .ok none
    else do
      if ← keywordAt bytes keyword place then return some place
      searchFrom bytes keyword (place + 1)
  else .ok none
termination_by bytes.length - place

variable {front cs ds keyword text : List Char} {c : Char} {place : ℕ}

/-- A text of ASCII characters only. -/
def IsAsciiText (cs : List Char) : Prop := ∀ c ∈ cs, Text.IsAscii c

theorem isAsciiText_iff : IsAsciiText cs ↔ (cs.all fun c => decide (Text.IsAscii c)) = true := by
  simp [IsAsciiText]

theorem sameLetters_cons (a b : UInt8) (xs ys : List UInt8) :
    sameLetters (a :: xs) (b :: ys) =
      (Text.lowerByte a == Text.lowerByte b && sameLetters xs ys) := rfl

/-- The bytes of a text start with those of a keyword where its characters do. -/
theorem sameLetters_take (hkeyword : IsAsciiText keyword) (cs : List Char) :
    sameLetters ((Text.bytes cs).take (Text.byteSize keyword)) (Text.bytes keyword) =
      (Query.afterKeyword? keyword cs).isSome := by
  induction keyword generalizing cs with
  | nil => rfl
  | cons k ks ih =>
    obtain ⟨hk, hks⟩ := List.forall_mem_cons.mp hkeyword
    have hsize : Text.byteSize (k :: ks) = Text.byteSize ks + 1 := by
      rw [Text.byteSize, ← String.length_utf8EncodeChar, Text.encode_of_isAscii hk, Nat.add_comm]
      rfl
    rw [hsize, Text.bytes_cons k, Text.encode_of_isAscii hk, List.singleton_append]
    cases cs with
    | nil => rfl
    | cons c cs =>
      obtain ⟨b, bs, hbytes⟩ := Text.exists_encode c
      have hletter := Text.lowerByte_eq_iff hk hbytes
      rw [Query.afterKeyword?, Text.bytes_cons c, hbytes, List.cons_append, List.take_succ_cons,
        sameLetters_cons]
      by_cases heq : k.toLower = c.toLower
      · -- The letter is one byte, and the bytes of what follows stand behind it.
        have hc : Text.IsAscii c := Text.isAscii_of_toLower (heq ▸ Text.isAscii_toLower hk)
        rw [Text.encode_of_isAscii hc] at hbytes
        obtain ⟨rfl, rfl⟩ := List.cons.inj hbytes
        rw [if_pos heq, beq_iff_eq.mpr (hletter.mpr heq), Bool.true_and, List.nil_append, ih hks]
      · rw [if_neg heq, beq_false_of_ne (mt hletter.mp heq), Bool.false_and]
        rfl

/-- The byte before the end of a text is one of its last character. -/
theorem element_last (front : List Char) (c : Char) (rest : List Char) :
    ∃ b, element (Text.bytes (front ++ c :: rest)) (Text.byteSize (front ++ [c]) - 1) = .ok b ∧
      Text.isBlankByte b = Text.isAsciiBlank c := by
  have hsize : Text.byteSize (front ++ [c]) = Text.byteSize front + c.utf8Size :=
    Text.byteSize_append front [c]
  have hpos := c.utf8Size_pos
  obtain ⟨b, hmem, hb⟩ : ∃ b ∈ String.utf8EncodeChar c,
      (Text.bytes (front ++ c :: rest))[Text.byteSize (front ++ [c]) - 1]? = some b :=
    Text.exists_byte (by omega) (by omega) rest
  exact ⟨b, element_eq_ok hb, Text.isBlankByte_of_mem_encode hmem⟩

theorem element_next (front : List Char) (c : Char) (rest : List Char) :
    ∃ b, element (Text.bytes (front ++ c :: rest)) (Text.byteSize front) = .ok b ∧
      Text.isBlankByte b = Text.isAsciiBlank c := by
  have hpos := c.utf8Size_pos
  obtain ⟨b, hmem, hb⟩ : ∃ b ∈ String.utf8EncodeChar c,
      (Text.bytes (front ++ c :: rest))[Text.byteSize front]? = some b :=
    Text.exists_byte le_rfl (by omega) rest
  exact ⟨b, element_eq_ok hb, Text.isBlankByte_of_mem_encode hmem⟩

theorem wordEndsAt_boundary (front rest : List Char) :
    wordEndsAt (Text.bytes (front ++ rest)) (Text.byteSize front) =
      .ok (rest.head?.elim true Text.isAsciiBlank) := by
  unfold wordEndsAt
  cases rest with
  | nil =>
    rw [List.append_nil, Text.length_bytes, if_pos rfl]
    rfl
  | cons c rest =>
    obtain ⟨behind, hbehind, hblank⟩ := element_next front c rest
    have hne : Text.byteSize front ≠ (Text.bytes (front ++ c :: rest)).length := by
      have := c.utf8Size_pos
      rw [Text.length_bytes, Text.byteSize_append, Text.byteSize]
      omega
    rw [if_neg hne, hbehind, Except.ok_bind, hblank]
    rfl

theorem startsWith_of_afterKeyword? {rest : List Char}
    (h : Query.afterKeyword? keyword cs = some rest) :
    Query.startsWith keyword cs = rest.head?.elim true Text.isAsciiBlank := by
  unfold Query.startsWith
  rw [h]
  cases rest <;> rfl

theorem slice_word (front cs : List Char) {n : ℕ} (hle : n ≤ Text.byteSize cs) :
    slice (Text.bytes (front ++ cs)) (Text.byteSize front) (Text.byteSize front + n) =
      .ok ((Text.bytes cs).take n) := by
  have hlen : Text.byteSize front + n ≤ (Text.bytes (front ++ cs)).length := by
    rw [Text.length_bytes, Text.byteSize_append]
    omega
  rw [slice_eq_ok (Nat.le_add_right _ _) hlen, Nat.add_sub_cancel_left, Text.bytes_append,
    ← Text.length_bytes front, List.drop_left]

/-- Between characters, a keyword stands where the text is found to start with it. -/
theorem keywordAt_boundary (hkeyword : IsAsciiText keyword) (front : List Char) (c : Char)
    (hle : Text.byteSize keyword ≤ Text.byteSize cs) :
    keywordAt (Text.bytes (front ++ c :: cs)) (Text.bytes keyword)
        (Text.byteSize (front ++ [c])) =
      .ok (Text.isAsciiBlank c && Query.startsWith keyword cs) := by
  have hpos : 1 ≤ Text.byteSize (front ++ [c]) := by
    have := c.utf8Size_pos
    rw [Text.byteSize_append, Text.byteSize]
    omega
  have hassoc : front ++ c :: cs = front ++ [c] ++ cs := by simp
  obtain ⟨before, hbefore, hblank⟩ := element_last front c cs
  have hword := slice_word (front ++ [c]) cs hle
  rw [← hassoc] at hword
  unfold keywordAt
  rw [minus_eq_ok hpos, Except.ok_bind, hbefore, Except.ok_bind, hblank, Text.length_bytes, hword]
  cases Text.isAsciiBlank c with
  | false => rfl
  | true =>
    rw [Bool.true_and, Except.ok_bind, sameLetters_take hkeyword]
    cases hafter : Query.afterKeyword? keyword cs with
    | none =>
      unfold Query.startsWith
      rw [hafter]
      rfl
    | some rest =>
      obtain ⟨kw, hkw, rfl⟩ := Query.exists_of_afterKeyword? hafter
      have hstop : Text.byteSize (front ++ [c]) + Text.byteSize keyword =
          Text.byteSize (front ++ [c] ++ kw) := by
        rw [Text.byteSize_append (front ++ [c]), hkw.byteSize]
      rw [startsWith_of_afterKeyword? hafter, hassoc, ← List.append_assoc, hstop]
      exact wordEndsAt_boundary (front ++ [c] ++ kw) rest

/-- Inside a character no keyword stands: the byte before is none of an ASCII character. -/
theorem keywordAt_inside (keyword : List UInt8) (front : List Char) (c : Char) (cs : List Char)
    (hstart : Text.byteSize front < place) (hstop : place < Text.byteSize front + c.utf8Size) :
    keywordAt (Text.bytes (front ++ c :: cs)) keyword place = .ok false := by
  obtain ⟨b, hmem, hb⟩ : ∃ b ∈ String.utf8EncodeChar c,
      (Text.bytes (front ++ c :: cs))[place - 1]? = some b :=
    Text.exists_byte (by omega) (by omega) cs
  have hc : ¬ Text.IsAscii c := fun hc => by
    have hsize := congrArg List.length (Text.encode_of_isAscii hc)
    rw [String.length_utf8EncodeChar, List.length_singleton] at hsize
    omega
  unfold keywordAt
  rw [minus_eq_ok (by omega), Except.ok_bind, element_eq_ok hb, Except.ok_bind,
    Text.isBlankByte_of_le (Text.le_of_mem_encode hc hmem)]
  rfl

theorem searchFrom_of_lt {bytes keyword : List UInt8}
    (h : bytes.length < place + keyword.length) : searchFrom bytes keyword place = .ok none := by
  rw [searchFrom]
  split_ifs <;> rfl

theorem searchFrom_next {bytes keyword : List UInt8}
    (h : keywordAt bytes keyword place = .ok false) :
    searchFrom bytes keyword place = searchFrom bytes keyword (place + 1) := by
  by_cases hlt : bytes.length < place + keyword.length
  · rw [searchFrom_of_lt hlt, searchFrom_of_lt (by omega)]
  · rw [searchFrom]
    split_ifs with hplace
    · rw [h]
      rfl
    · rw [searchFrom, if_neg (by omega)]

/-- The search passes over the bytes inside a character. -/
theorem searchFrom_inside (keyword : List UInt8) (front : List Char) (c : Char) (cs : List Char)
    (hstart : Text.byteSize front < place) (hstop : place ≤ Text.byteSize front + c.utf8Size) :
    searchFrom (Text.bytes (front ++ c :: cs)) keyword place =
      searchFrom (Text.bytes (front ++ c :: cs)) keyword (Text.byteSize (front ++ [c])) := by
  have hsize : Text.byteSize (front ++ [c]) = Text.byteSize front + c.utf8Size :=
    Text.byteSize_append front [c]
  rw [hsize]
  -- The number of bytes up to the end of the character decreases.
  obtain ⟨n, hn⟩ := Nat.exists_eq_add_of_le hstop
  induction n generalizing place with
  | zero => rw [hn, Nat.add_zero]
  | succ n ih =>
    rw [searchFrom_next (keywordAt_inside keyword front c cs hstart (by omega))]
    exact ih (by omega) (by omega) (by omega)

theorem findKeyword?_eq_none {border : Bool} (hlt : Text.byteSize cs < Text.byteSize keyword)
    (place : ℕ) : Query.findKeyword? keyword place border cs = none := by
  cases hfind : Query.findKeyword? keyword place border cs with
  | none => rfl
  | some p =>
    obtain ⟨front, kw, rest, rfl, -, hkw, -⟩ := Query.exists_of_findKeyword? hfind
    rw [Text.byteSize_append, Text.byteSize_append, hkw.byteSize] at hlt
    omega

/-- From the end of a character on, the search by the byte finds the keyword that the search by the
character finds. -/
theorem searchFrom_boundary (hkeyword : IsAsciiText keyword) (front : List Char) (c : Char)
    (cs : List Char) :
    searchFrom (Text.bytes (front ++ c :: cs)) (Text.bytes keyword)
        (Text.byteSize (front ++ [c])) =
      .ok (Query.findKeyword? keyword (Text.byteSize (front ++ [c])) (Text.isAsciiBlank c) cs) := by
  have hlength (rest : List Char) : (Text.bytes (front ++ c :: rest)).length =
      Text.byteSize (front ++ [c]) + Text.byteSize rest := by
    rw [Text.length_bytes, ← Text.byteSize_append, List.append_assoc, List.singleton_append]
  induction cs generalizing front c with
  | nil =>
    rw [searchFrom, if_neg (by rw [hlength, Text.byteSize]; omega)]
    rfl
  | cons d ds ih =>
    by_cases hlt : Text.byteSize (d :: ds) < Text.byteSize keyword
    · rw [findKeyword?_eq_none hlt, searchFrom_of_lt]
      rw [hlength, Text.length_bytes]
      omega
    · have hplace : Text.byteSize (front ++ [c]) < (Text.bytes (front ++ c :: d :: ds)).length := by
        have := d.utf8Size_pos
        rw [hlength, Text.byteSize]
        omega
      rw [searchFrom, if_pos hplace, if_neg (by rw [hlength, Text.length_bytes]; omega),
        keywordAt_boundary hkeyword front c (Nat.le_of_not_lt hlt), Except.ok_bind,
        Query.findKeyword?]
      split_ifs
      · rfl
      · have hassoc : front ++ c :: d :: ds = front ++ [c] ++ d :: ds := by simp
        have hsize : Text.byteSize (front ++ [c] ++ [d]) =
            Text.byteSize (front ++ [c]) + d.utf8Size := Text.byteSize_append _ [d]
        have hpos := d.utf8Size_pos
        rw [hassoc, searchFrom_inside _ (front ++ [c]) d ds (by omega) (by omega), ← hsize]
        refine ih (front ++ [c]) d fun rest => ?_
        rw [Text.length_bytes, ← Text.byteSize_append, List.append_assoc _ [d],
          List.singleton_append]

theorem searchFrom_one (hkeyword : IsAsciiText keyword) (text : List Char) :
    searchFrom (Text.bytes text) (Text.bytes keyword) 1 =
      .ok (Query.findKeyword? keyword 0 false text) := by
  cases text with
  | nil =>
    rw [searchFrom, if_neg (by rw [Text.length_bytes, Text.byteSize]; omega)]
    rfl
  | cons c cs =>
    have hsize : Text.byteSize [c] = c.utf8Size := rfl
    have hle : 1 ≤ Text.byteSize [] + c.utf8Size := by
      rw [Text.byteSize, Nat.zero_add]
      exact c.utf8Size_pos
    have hskip := searchFrom_inside (Text.bytes keyword) [] c cs Nat.one_pos hle
    rw [List.nil_append, List.nil_append] at hskip
    rw [hskip, Query.findKeyword?_cons rfl, Nat.zero_add]
    exact searchFrom_boundary hkeyword [] c cs

end Search

section Parts

/-- Where the trimmed text before the first keyword ends, and where the one behind it starts. -/
def findKeyword (text keyword : List Char) : Except Stop (Option (ℕ × ℕ)) := do
  let bytes := Text.bytes text
  let size := (Text.bytes keyword).length
  match ← searchFrom bytes (Text.bytes keyword) 1 with
  | none => return none
  | some place =>
    let before ← sliceText text 0 place
    let behind ← sliceText text (place + size) bytes.length
    let blanks ← minus (Text.byteSize behind) (Text.byteSize (Text.trimStart behind))
    return some (Text.byteSize (Text.trimEnd before), place + size + blanks)

/-- The texts before and behind the first keyword, if there is one. -/
def parts (text keyword : List Char) : Except Stop (Option (List Char × List Char)) := do
  match ← findKeyword text keyword with
  | none => return none
  | some (stop, start) =>
    let before ← sliceText text 0 stop
    let behind ← sliceText text start (Text.byteSize text)
    return some (before, behind)

/-- What follows a keyword at the start of a text and the white space behind it. -/
def stripKeyword (text keyword : List Char) : Except Stop (Option (List Char)) := do
  let bytes := Text.bytes text
  let size := (Text.bytes keyword).length
  if bytes.length ≤ size then return none
  let word ← slice bytes 0 size
  if !sameLetters word (Text.bytes keyword) then return none
  let behind ← element bytes size
  if !Text.isBlankByte behind then return none
  let rest ← sliceText text size bytes.length
  return some (Text.trimStart rest)

variable {front kw rest keyword text : List Char}

/-- Where the text before a keyword ends and where the one behind it starts are both between
characters, whatever white space is trimmed there. -/
theorem findKeyword_eq (hkeyword : IsAsciiText keyword) (hparted : Query.Parted keyword text front
    kw rest) (hfind : Query.findKeyword? keyword 0 false text = some (Text.byteSize front)) :
    ∃ blanks gap, front = Text.trimEnd front ++ blanks ∧ rest = gap ++ Text.trimStart rest ∧
      findKeyword text keyword = .ok (some (Text.byteSize (Text.trimEnd front),
        Text.byteSize (front ++ kw ++ gap))) := by
  obtain ⟨blanks, -, hfront⟩ := Text.exists_trimEnd front
  obtain ⟨gap, -, hrest⟩ := Text.exists_trimStart rest
  refine ⟨blanks, gap, hfront, hrest, ?_⟩
  have hplace : Text.byteSize front + Text.byteSize keyword = Text.byteSize (front ++ kw) := by
    rw [Text.byteSize_append, hparted.spells.byteSize]
  have hbefore : sliceText text 0 (Text.byteSize front) = .ok front := by
    rw [hparted.text_eq]
    exact sliceText_front front _
  have hbehind : sliceText text (Text.byteSize (front ++ kw)) (Text.byteSize text) =
      .ok rest := by
    rw [hparted.text_eq, ← List.append_assoc]
    exact sliceText_rest _ rest
  have hgap : Text.byteSize rest = Text.byteSize gap + Text.byteSize (Text.trimStart rest) := by
    rw [← Text.byteSize_append, ← hrest]
  unfold findKeyword
  dsimp only
  rw [searchFrom_one hkeyword, hfind, Except.ok_bind]
  dsimp only
  rw [Text.length_bytes, Text.length_bytes, hplace, hbefore, Except.ok_bind, hbehind,
    Except.ok_bind, minus_eq_ok (by omega), Except.ok_bind, hgap, Nat.add_sub_cancel,
    ← Text.byteSize_append, Except.pure_eq_ok]

/-- A text is parted at the places of a keyword as it is parted at the keyword. -/
theorem parts_eq (hkeyword : IsAsciiText keyword) (text : List Char) :
    parts text keyword = (Query.splitAt keyword text).mapError .refused := by
  obtain ⟨hfind, hsplit⟩ | ⟨front, kw, rest, hparted, hfind, hsplit⟩ :=
    Query.splitAt_cases keyword text
  · have hnone : findKeyword text keyword = .ok none := by
      unfold findKeyword
      dsimp only
      rw [searchFrom_one hkeyword, hfind]
      rfl
    rw [parts, hnone, hsplit]
    rfl
  · obtain ⟨blanks, gap, hfront, hrest, hlocate⟩ := findKeyword_eq hkeyword hparted hfind
    have hbefore : sliceText text 0 (Text.byteSize (Text.trimEnd front)) =
        .ok (Text.trimEnd front) := by
      have htext : text = Text.trimEnd front ++ (blanks ++ (kw ++ rest)) := by
        rw [← List.append_assoc, ← hfront, hparted.text_eq]
      rw [htext]
      exact sliceText_front _ _
    have hbehind : sliceText text (Text.byteSize (front ++ kw ++ gap)) (Text.byteSize text) =
        .ok (Text.trimStart rest) := by
      have htext : text = front ++ kw ++ gap ++ Text.trimStart rest := by
        rw [List.append_assoc _ gap, ← hrest, hparted.text_eq, List.append_assoc]
      rw [htext]
      exact sliceText_rest _ _
    rw [parts, hlocate, Except.ok_bind]
    dsimp only
    rw [hbefore, Except.ok_bind, hbehind, hsplit]
    rfl

/-- What follows `SELECT` by the byte is what follows it by the character. -/
theorem stripKeyword_select (text : List Char) :
    stripKeyword text "SELECT".toList = .ok (Query.afterSelect text).toOption := by
  have hkeyword : IsAsciiText "SELECT".toList := isAsciiText_iff.mpr (by decide)
  have hsize : (Text.bytes "SELECT".toList).length = 6 := by rw [Text.length_bytes]; decide
  have hletters := sameLetters_take hkeyword text
  rw [← Text.length_bytes, hsize] at hletters
  unfold stripKeyword Query.afterSelect
  dsimp only
  rw [hsize]
  cases hafter : Query.afterKeyword? "SELECT".toList text with
  | none =>
    split_ifs with hle
    · rfl
    · rw [slice_eq_ok (Nat.zero_le _) (Nat.le_of_not_le hle), Except.ok_bind, Nat.sub_zero,
        List.drop_zero, hletters, hafter]
      rfl
  | some rest =>
    obtain ⟨kw, hkw, rfl⟩ := Query.exists_of_afterKeyword? hafter
    have hkwsize : Text.byteSize kw = 6 := hkw.byteSize
    cases rest with
    | nil =>
      rw [List.append_nil, Text.length_bytes, hkwsize, if_pos le_rfl]
      rfl
    | cons c rest =>
      have hlt : 6 < (Text.bytes (kw ++ c :: rest)).length := by
        have := c.utf8Size_pos
        rw [Text.length_bytes, Text.byteSize_append, hkwsize, Text.byteSize]
        omega
      obtain ⟨behind, hbehind, hblank⟩ := element_next kw c rest
      have hrest : sliceText (kw ++ c :: rest) 6 (Text.bytes (kw ++ c :: rest)).length =
          .ok (c :: rest) := by
        rw [Text.length_bytes, ← hkwsize]
        exact sliceText_rest kw (c :: rest)
      have hcut : cut (kw ++ c :: rest) 6 (Text.byteSize (kw ++ c :: rest)) = .ok (c :: rest) := by
        rw [← hkwsize]
        exact Query.cut_suffix _ _
      rw [hkwsize] at hbehind
      rw [if_neg (Nat.not_le.mpr hlt), slice_eq_ok (Nat.zero_le _) hlt.le, Except.ok_bind,
        Nat.sub_zero, List.drop_zero, hletters, hafter, hbehind, Except.ok_bind, hblank, hrest,
        hcut]
      dsimp only
      cases hc : Text.isAsciiBlank c with
      | false => rfl
      | true => rfl

end Parts

end EntityStore.Position
