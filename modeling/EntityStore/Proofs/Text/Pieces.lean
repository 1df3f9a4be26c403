import EntityStore.Text.Blank
import EntityStore.Text.Slice
import EntityStore.Text.Split
import Mathlib.Data.List.TakeWhile
import Mathlib.Tactic.SplitIfs

/-! Texts put together from pieces, and trimmed, parted and cut into them again. -/
namespace EntityStore.Text

variable {p : Char → Bool} {cs ds : List Char}

section Blank

/-- The code points of white space. -/
def blankCodes : List Nat := [0x9, 0xA, 0xB, 0xC, 0xD, 0x20, 0x85, 0xA0, 0x1680, 0x2000, 0x2001,
  0x2002, 0x2003, 0x2004, 0x2005, 0x2006, 0x2007, 0x2008, 0x2009, 0x200A, 0x2028, 0x2029, 0x202F,
  0x205F, 0x3000]

/-- What holds of each character of white space, given by its code, holds of all. -/
theorem forall_blank (h : ∀ n ∈ blankCodes, p (Char.ofNat n) = true) {c : Char}
    (hc : isBlank c = true) : p c = true := by
  have hcode : c.toNat ∈ blankCodes := by
    simp only [isBlank, Bool.or_eq_true, Bool.and_eq_true, decide_eq_true_eq, beq_iff_eq] at hc
    simp only [blankCodes, List.mem_cons, List.not_mem_nil, or_false]
    omega
  have hp := h c.toNat hcode
  rwa [Char.ofNat_toNat] at hp

end Blank

section Trim

/-- Characters of white space only. -/
def IsBlank (cs : List Char) : Prop := ∀ c ∈ cs, isBlank c = true

theorem IsBlank.nil : IsBlank [] := nofun

theorem IsBlank.space : IsBlank [' '] := List.forall_mem_singleton.mpr rfl

/-- A text with no white space at its ends; it may be empty. -/
structure Tight (cs : List Char) : Prop where
  head : ∀ c ∈ cs.head?, isBlank c = false
  last : ∀ c ∈ cs.getLast?, isBlank c = false

theorem dropWhile_of_head? (h : ∀ c ∈ cs.head?, p c = false) : cs.dropWhile p = cs := by
  cases cs with
  | nil => rfl
  | cons c cs =>
    have hc : ¬ p c = true := by simp [h c rfl]
    rw [List.dropWhile_cons_of_neg hc]

theorem trimEndBy_append (hds : ∀ c ∈ ds, p c = true) (hcs : ∀ c ∈ cs.getLast?, p c = false) :
    trimEndBy p (cs ++ ds) = cs := by
  have hhead : ∀ c ∈ cs.reverse.head?, p c = false := by
    rwa [List.head?_reverse]
  have hdrop : ∀ c ∈ ds.reverse, p c = true := fun c hc => hds c (List.mem_reverse.mp hc)
  rw [trimEndBy, List.reverse_append, List.dropWhile_append_of_pos hdrop,
    dropWhile_of_head? hhead, List.reverse_reverse]

theorem trimEnd_append (hds : IsBlank ds) (hcs : Tight cs) : trimEnd (cs ++ ds) = cs :=
  trimEndBy_append hds hcs.last

theorem trimStart_append (hds : IsBlank ds) (hcs : Tight cs) : trimStart (ds ++ cs) = cs := by
  rw [trimStart, List.dropWhile_append_of_pos hds, dropWhile_of_head? hcs.head]

theorem trimEnd_of_tight (h : Tight cs) : trimEnd cs = cs := by
  have htrim := trimEnd_append .nil h
  rwa [List.append_nil] at htrim

theorem trim_of_tight (h : Tight cs) : trim cs = cs := by
  rw [trim, trimStart, dropWhile_of_head? h.head, trimEnd_of_tight h]

theorem trim_append {as bs : List Char} (has : IsBlank as) (hbs : IsBlank bs) (hcs : Tight cs)
    (hne : cs ≠ []) : trim (as ++ (cs ++ bs)) = cs := by
  have hhead : ∀ c ∈ (cs ++ bs).head?, isBlank c = false := by
    obtain ⟨c, cs, rfl⟩ := List.exists_cons_of_ne_nil hne
    exact hcs.head
  rw [trim, trimStart, List.dropWhile_append_of_pos has, dropWhile_of_head? hhead,
    trimEnd_append hbs hcs]

/-- What trimming leaves out at the start of a text. -/
theorem exists_trimStart (cs : List Char) : ∃ gap, IsBlank gap ∧ cs = gap ++ trimStart cs := by
  refine ⟨cs.takeWhile isBlank, fun c hc => List.mem_takeWhile_imp hc, ?_⟩
  exact List.takeWhile_append_dropWhile.symm

theorem exists_trimEndBy (p : Char → Bool) (cs : List Char) :
    ∃ gap, (∀ c ∈ gap, p c = true) ∧ cs = trimEndBy p cs ++ gap := by
  refine ⟨(cs.reverse.takeWhile p).reverse, fun c hc => ?_, ?_⟩
  · exact List.mem_takeWhile_imp (List.mem_reverse.mp hc)
  · rw [trimEndBy, ← List.reverse_append, List.takeWhile_append_dropWhile, List.reverse_reverse]

theorem exists_trimEnd (cs : List Char) : ∃ gap, IsBlank gap ∧ cs = trimEnd cs ++ gap :=
  exists_trimEndBy isBlank cs

theorem head?_trimStart (cs : List Char) : ∀ c ∈ (trimStart cs).head?, isBlank c = false := by
  intro c hc
  have hdrop := List.head?_dropWhile_not isBlank cs
  rw [trimStart] at hc
  rw [Option.mem_def.mp hc] at hdrop
  simpa using hdrop

theorem getLast?_trimEndBy (p : Char → Bool) (cs : List Char) :
    ∀ c ∈ (trimEndBy p cs).getLast?, p c = false := by
  intro c hc
  have hdrop := List.head?_dropWhile_not p cs.reverse
  rw [trimEndBy, List.getLast?_reverse] at hc
  rw [Option.mem_def.mp hc] at hdrop
  simpa using hdrop

/-- Trimming takes white space from both ends only. -/
theorem exists_trim (cs : List Char) :
    ∃ gap gap', IsBlank gap ∧ IsBlank gap' ∧ cs = gap ++ (trim cs ++ gap') := by
  obtain ⟨gap, hgap, hstart⟩ := exists_trimStart cs
  obtain ⟨gap', hgap', hend⟩ := exists_trimEnd (trimStart cs)
  exact ⟨gap, gap', hgap, hgap', by rw [trim, ← hend, ← hstart]⟩

theorem tight_trimEnd (h : ∀ c ∈ cs.head?, isBlank c = false) : Tight (trimEnd cs) := by
  refine ⟨fun c hc => ?_, getLast?_trimEndBy isBlank cs⟩
  obtain ⟨gap, -, hcs⟩ := exists_trimEnd cs
  refine h c ?_
  rw [hcs, List.head?_append, Option.mem_def.mp hc]
  rfl

theorem tight_trim (cs : List Char) : Tight (trim cs) := tight_trimEnd (head?_trimStart cs)

end Trim

section Split

/-- The piece before the first separator. -/
theorem split_append_cons {sep : Char} (h : sep ∉ cs) (ds : List Char) :
    split sep (cs ++ sep :: ds) = cs :: split sep ds := by
  induction cs with
  | nil => simp [split]
  | cons c cs ih =>
    rw [List.mem_cons, not_or] at h
    have hc : c ≠ sep := fun heq => h.1 heq.symm
    rw [List.cons_append, split, if_neg hc, ih h.2]

/-- The pieces, with the separator before each but the first, are the text. -/
theorem eq_of_split {sep : Char} {ps : List (List Char)} (h : split sep cs = ds :: ps) :
    cs = ds ++ ps.flatMap (sep :: ·) := by
  induction cs generalizing ds ps with
  | nil =>
    cases h
    rfl
  | cons c cs ih =>
    obtain ⟨p, qs, hcs⟩ := List.exists_cons_of_ne_nil (split_ne_nil sep cs)
    rw [split, hcs] at h
    split_ifs at h with hc
    · cases h
      rw [hc, ih hcs]
      rfl
    · cases h
      rw [ih hcs]
      rfl

theorem notMem_of_mem_split {sep : Char} {p : List Char} (h : p ∈ split sep cs) : sep ∉ p := by
  induction cs generalizing p with
  | nil => simp_all [split]
  | cons c cs ih =>
    obtain ⟨q, qs, hcs⟩ := List.exists_cons_of_ne_nil (split_ne_nil sep cs)
    rw [split, hcs] at h
    rw [hcs] at ih
    split_ifs at h with hc
    · rcases List.mem_cons.mp h with rfl | h
      · exact List.not_mem_nil
      · exact ih h
    · rcases List.mem_cons.mp h with rfl | h
      · have hq := ih List.mem_cons_self
        simp [hq, Ne.symm hc]
      · exact ih (List.mem_cons_of_mem _ h)

theorem split_append_sep (sep : Char) (as bs : List Char) :
    split sep (as ++ sep :: bs) = split sep as ++ split sep bs := by
  induction as with
  | nil => simp [split]
  | cons a as ih =>
    obtain ⟨p, ps, has⟩ := List.exists_cons_of_ne_nil (split_ne_nil sep as)
    rw [List.cons_append, split, split, ih, has]
    split_ifs with ha
    · rfl
    · rfl

end Split

section Slice

theorem byteSize_toList (s : String) : byteSize s.toList = s.utf8ByteSize := by
  have hsize : ∀ cs : List Char, byteSize cs = (String.ofList cs).utf8ByteSize := by
    intro cs
    induction cs with
    | nil => rfl
    | cons c cs ih =>
      rw [byteSize, ih, String.ofList_cons, String.utf8ByteSize_append,
        String.utf8ByteSize_singleton]
  rw [hsize, String.ofList_toList]

theorem slice?_append (as bs cs : List Char) :
    slice? (byteSize as) (byteSize as + byteSize bs) (as ++ (bs ++ cs)) = some bs := by
  have hle : byteSize as ≤ byteSize as + byteSize bs := Nat.le_add_right _ _
  rw [slice?, if_pos hle, dropBytes?_byteSize_append, Nat.add_sub_cancel_left, Option.bind_some,
    takeBytes?_byteSize_append]

/-- Letter case does not change the size of a character. -/
theorem utf8Size_toLower (c : Char) : c.toLower.utf8Size = c.utf8Size := by
  unfold Char.toLower
  split
  next h =>
    -- A capital and its small letter both have one byte.
    have hc : c.val.toNat ≤ 90 := UInt32.le_iff_toNat_le.mp h.2
    have hsum : (c.val + ('a'.val - 'A'.val)).toNat = (c.val.toNat + 32) % 2 ^ 32 := by
      rw [UInt32.toNat_add]
      rfl
    have hcapital : c.utf8Size = 1 :=
      Char.utf8Size_eq_one_iff.mpr (UInt32.le_iff_toNat_le.mpr (Nat.le_trans hc (by decide)))
    rw [hcapital]
    refine Char.utf8Size_eq_one_iff.mpr (UInt32.le_iff_toNat_le.mpr ?_)
    rw [hsum]
    show _ ≤ 127
    omega
  next => rfl

theorem byteSize_map_toLower (cs : List Char) : byteSize (cs.map Char.toLower) = byteSize cs := by
  induction cs with
  | nil => rfl
  | cons c cs ih => rw [List.map_cons, byteSize, byteSize, utf8Size_toLower, ih]

end Slice

end EntityStore.Text
