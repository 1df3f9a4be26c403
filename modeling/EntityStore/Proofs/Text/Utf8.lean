import EntityStore.Proofs.Text.Pieces

/-! The bytes of a text in UTF-8. A byte of an ASCII character is the character, and no other
character has bytes below 128. -/
namespace EntityStore.Text

variable {c : Char} {cs ds : List Char} {b : UInt8}

/-- The UTF-8 form of a text. -/
def bytes (cs : List Char) : List UInt8 := cs.flatMap String.utf8EncodeChar

theorem toByteArray_ofList (cs : List Char) :
    (String.ofList cs).toByteArray = (bytes cs).toByteArray := rfl

theorem bytes_cons (c : Char) (cs : List Char) :
    bytes (c :: cs) = String.utf8EncodeChar c ++ bytes cs := List.flatMap_cons

theorem bytes_append (cs ds : List Char) : bytes (cs ++ ds) = bytes cs ++ bytes ds :=
  List.flatMap_append

@[simp] theorem length_bytes (cs : List Char) : (bytes cs).length = byteSize cs := by
  induction cs with
  | nil => rfl
  | cons c cs ih => rw [bytes_cons, List.length_append, String.length_utf8EncodeChar, ih, byteSize]

section Ascii

def IsAscii (c : Char) : Prop := c.toNat < 128

instance : DecidablePred IsAscii := fun c => inferInstanceAs (Decidable (c.toNat < 128))

/-- What holds of each ASCII character, given by its code, holds of all. -/
theorem forall_ascii {p : Char → Bool} (h : ∀ n < 128, p (Char.ofNat n) = true) (hc : IsAscii c) :
    p c = true := by
  have hp := h c.toNat hc
  rwa [Char.ofNat_toNat] at hp

theorem encode_of_isAscii (hc : IsAscii c) :
    String.utf8EncodeChar c = [UInt8.ofNat c.toNat] := by
  have hle : c.val.toNat ≤ 0x7f := Nat.le_of_lt_succ hc
  rw [String.utf8EncodeChar, if_pos hle]
  rfl

theorem le_of_mem_encode (hc : ¬ IsAscii c) (hb : b ∈ String.utf8EncodeChar c) :
    128 ≤ b.toNat := by
  have hgt : ¬ c.val.toNat ≤ 0x7f := fun hle => hc (Nat.lt_succ_of_le hle)
  rw [String.utf8EncodeChar, if_neg hgt] at hb
  split_ifs at hb
  all_goals
    simp only [List.mem_cons, List.not_mem_nil, or_false] at hb
    rcases hb with rfl | rfl | rfl | rfl
  all_goals
    rw [UInt8.toNat_ofNat']
    omega

/-- Whether a byte is ASCII white space. -/
def isBlankByte (b : UInt8) : Bool := b == 9 || b == 10 || b == 12 || b == 13 || b == 32

/-- A byte, a capital ASCII letter as its small one. -/
def lowerByte (b : UInt8) : UInt8 := if 65 ≤ b ∧ b ≤ 90 then b + 32 else b

theorem isBlankByte_of_le (hb : 128 ≤ b.toNat) : isBlankByte b = false := by
  simp only [isBlankByte, Bool.or_eq_false_iff, beq_eq_false_iff_ne, ne_eq, ← UInt8.toNat_inj]
  refine ⟨⟨⟨⟨?_, ?_⟩, ?_⟩, ?_⟩, ?_⟩ <;> intro h <;> rw [h] at hb <;> exact absurd hb (by decide)

theorem lowerByte_of_le (hb : 128 ≤ b.toNat) : lowerByte b = b := by
  refine if_neg fun h => ?_
  have hle : b.toNat ≤ 90 := UInt8.le_iff_toNat_le.mp h.2
  omega

theorem isAsciiBlank_of_not_isAscii (hc : ¬ IsAscii c) : isAsciiBlank c = false := by
  cases hblank : isAsciiBlank c with
  | false => rfl
  | true =>
    refine absurd ?_ hc
    simp only [isAsciiBlank, Bool.or_eq_true, beq_iff_eq] at hblank
    rcases hblank with (((rfl | rfl) | rfl) | rfl) | rfl <;> decide

theorem toLower_of_not_isAscii (hc : ¬ IsAscii c) : c.toLower = c := by
  unfold Char.toLower
  refine dif_neg fun h => hc ?_
  have hle : c.toNat ≤ 90 := UInt32.le_iff_toNat_le.mp h.2
  exact Nat.lt_of_le_of_lt hle (by decide)

theorem isAscii_toLower (hc : IsAscii c) : IsAscii c.toLower := by
  have hp := forall_ascii (p := fun c => decide (IsAscii c.toLower)) (by decide) hc
  exact of_decide_eq_true hp

theorem isBlankByte_code (hc : IsAscii c) : isBlankByte (UInt8.ofNat c.toNat) = isAsciiBlank c := by
  have hp := forall_ascii
    (p := fun c => isBlankByte (UInt8.ofNat c.toNat) == isAsciiBlank c) (by decide) hc
  exact beq_iff_eq.mp hp

theorem lowerByte_code (hc : IsAscii c) :
    lowerByte (UInt8.ofNat c.toNat) = UInt8.ofNat c.toLower.toNat := by
  have hp := forall_ascii
    (p := fun c => lowerByte (UInt8.ofNat c.toNat) == UInt8.ofNat c.toLower.toNat) (by decide) hc
  exact beq_iff_eq.mp hp

theorem code_inj {d : Char} (hc : IsAscii c) (hd : IsAscii d) :
    UInt8.ofNat c.toNat = UInt8.ofNat d.toNat ↔ c = d := by
  rw [← UInt8.toNat_inj, UInt8.toNat_ofNat', UInt8.toNat_ofNat',
    Nat.mod_eq_of_lt (Nat.lt_trans hc (by decide)), Nat.mod_eq_of_lt (Nat.lt_trans hd (by decide)),
    Char.toNat_inj]

theorem exists_encode (c : Char) : ∃ b bs, String.utf8EncodeChar c = b :: bs := by
  refine List.exists_cons_of_length_pos ?_
  rw [String.length_utf8EncodeChar]
  exact c.utf8Size_pos

theorem isAscii_of_toLower (hc : IsAscii c.toLower) : IsAscii c := by
  by_contra hnot
  rw [toLower_of_not_isAscii hnot] at hc
  exact hnot hc

/-- The first bytes of two characters, one of them ASCII, are those of the same letter exactly if
the characters are. -/
theorem lowerByte_eq_iff {d : Char} {bs : List UInt8} (hd : IsAscii d)
    (hb : String.utf8EncodeChar c = b :: bs) :
    lowerByte b = lowerByte (UInt8.ofNat d.toNat) ↔ d.toLower = c.toLower := by
  rw [lowerByte_code hd]
  by_cases hc : IsAscii c
  · rw [encode_of_isAscii hc] at hb
    obtain ⟨rfl, -⟩ := List.cons.inj hb
    rw [lowerByte_code hc, code_inj (isAscii_toLower hc) (isAscii_toLower hd), eq_comm]
  · have hle : 128 ≤ b.toNat := le_of_mem_encode hc (hb ▸ List.mem_cons_self)
    rw [lowerByte_of_le hle]
    constructor
    · rintro rfl
      have hlt : d.toLower.toNat < 128 := isAscii_toLower hd
      rw [UInt8.toNat_ofNat'] at hle
      omega
    · intro heq
      exact absurd (isAscii_of_toLower (heq ▸ isAscii_toLower hd)) hc

end Ascii

section Places

/-- The bytes of a character are white space where the character is ASCII white space. -/
theorem isBlankByte_of_mem_encode (hb : b ∈ String.utf8EncodeChar c) :
    isBlankByte b = isAsciiBlank c := by
  by_cases hc : IsAscii c
  · rw [encode_of_isAscii hc, List.mem_singleton] at hb
    rw [hb, isBlankByte_code hc]
  · rw [isBlankByte_of_le (le_of_mem_encode hc hb), isAsciiBlank_of_not_isAscii hc]

/-- The bytes of a character in a text stand where the character does. -/
theorem exists_byte {i : ℕ} (hstart : byteSize cs ≤ i) (hstop : i < byteSize cs + c.utf8Size)
    (ds : List Char) :
    ∃ b ∈ String.utf8EncodeChar c, (bytes (cs ++ c :: ds))[i]? = some b := by
  have hlt : i - byteSize cs < (String.utf8EncodeChar c).length := by
    rw [String.length_utf8EncodeChar]
    omega
  refine ⟨_, List.getElem_mem hlt, ?_⟩
  rw [bytes_append, bytes_cons, List.getElem?_append_right (by rwa [length_bytes]), length_bytes,
    List.getElem?_append_left hlt]
  exact List.getElem?_eq_getElem hlt

end Places

end EntityStore.Text
