import EntityStore.Proofs.Query.Clauses

/-! Any text, as it is parted at its keywords. -/
namespace EntityStore.Query

variable {keyword text front kw rest : List Char} {place p : Nat} {border : Bool}

/-- A text parted at a keyword, with ASCII white space before it, and behind it unless the text ends
there. -/
structure Parted (keyword text front kw rest : List Char) : Prop where
  text_eq : text = front ++ (kw ++ rest)
  spells : Spells keyword kw
  before : ∃ c ∈ front.getLast?, Text.isAsciiBlank c = true
  behind : ∀ c ∈ rest.head?, Text.isAsciiBlank c = true

/-- A text parted at the first keyword that it can be parted at. -/
structure FirstParted (keyword text front kw rest : List Char) : Prop
    extends Parted keyword text front kw rest where
  first : ∀ {front' kw' rest' : List Char}, Parted keyword text front' kw' rest' →
    Text.byteSize front ≤ Text.byteSize front'

section Search

theorem exists_of_startsWith (h : startsWith keyword text = true) :
    ∃ kw rest, text = kw ++ rest ∧ Spells keyword kw ∧
      ∀ c ∈ rest.head?, Text.isAsciiBlank c = true := by
  unfold startsWith at h
  split at h
  next hafter =>
    obtain ⟨kw, hkw, htext⟩ := exists_of_afterKeyword? hafter
    exact ⟨kw, [], htext, hkw, nofun⟩
  next c rest hafter =>
    obtain ⟨kw, hkw, htext⟩ := exists_of_afterKeyword? hafter
    exact ⟨kw, c :: rest, htext, hkw, fun d hd => Option.mem_some.mp hd ▸ h⟩
  next => cases h

/-- Where a keyword is found, the text before it ends in white space, or is empty where white space
stands before the text. -/
theorem exists_of_findKeyword? (h : findKeyword? keyword place border text = some p) :
    ∃ front kw rest, text = front ++ (kw ++ rest) ∧ p = place + Text.byteSize front ∧
      Spells keyword kw ∧ front.getLast?.elim border Text.isAsciiBlank = true ∧
      ∀ c ∈ rest.head?, Text.isAsciiBlank c = true := by
  induction text generalizing place border with
  | nil => cases h
  | cons c cs ih =>
    rw [findKeyword?] at h
    split_ifs at h with hstart
    · cases h
      obtain ⟨hborder, hstart⟩ := Bool.and_eq_true_iff.mp hstart
      obtain ⟨kw, rest, htext, hkw, hrest⟩ := exists_of_startsWith hstart
      exact ⟨[], kw, rest, htext, rfl, hkw, hborder, hrest⟩
    · obtain ⟨front, kw, rest, rfl, rfl, hkw, hfront, hrest⟩ := ih h
      refine ⟨c :: front, kw, rest, rfl, ?_, hkw, ?_, hrest⟩
      · rw [Text.byteSize, Nat.add_assoc]
      · rw [List.getLast?_cons]
        cases hlast : front.getLast? with
        | none => rwa [hlast] at hfront
        | some d => rwa [hlast] at hfront

theorem exists_parted (h : findKeyword? keyword 0 false text = some p) :
    ∃ front kw rest, Parted keyword text front kw rest ∧ p = Text.byteSize front := by
  obtain ⟨front, kw, rest, htext, hp, hkw, hfront, hrest⟩ := exists_of_findKeyword? h
  refine ⟨front, kw, rest, ⟨htext, hkw, ?_, hrest⟩, by rw [hp, Nat.zero_add]⟩
  cases hlast : front.getLast? with
  | none =>
    rw [hlast] at hfront
    cases hfront
  | some c =>
    rw [hlast] at hfront
    exact ⟨c, rfl, hfront⟩

theorem startsWith_of_spells (hkw : Spells keyword kw)
    (hrest : ∀ c ∈ rest.head?, Text.isAsciiBlank c = true) :
    startsWith keyword (kw ++ rest) = true := by
  rw [startsWith, afterKeyword?_append hkw]
  cases rest with
  | nil => rfl
  | cons c cs => exact hrest c rfl

/-- The search does not pass over a keyword. -/
theorem exists_findKeyword?_le (hne : kw ≠ []) (hstart : startsWith keyword (kw ++ rest) = true)
    (hfront : front.getLast?.elim border Text.isAsciiBlank = true) (place : Nat) :
    ∃ p, findKeyword? keyword place border (front ++ (kw ++ rest)) = some p ∧
      p ≤ place + Text.byteSize front := by
  induction front generalizing place border with
  | nil =>
    obtain ⟨c, cs, rfl⟩ := List.exists_cons_of_ne_nil hne
    have hborder : border = true := hfront
    refine ⟨place, ?_, Nat.le_refl _⟩
    rw [List.cons_append] at hstart
    rw [List.nil_append, List.cons_append, findKeyword?, hborder, hstart]
    rfl
  | cons c cs ih =>
    rw [List.cons_append, findKeyword?]
    split_ifs
    · exact ⟨place, rfl, Nat.le_add_right _ _⟩
    · have hlast : cs.getLast?.elim (Text.isAsciiBlank c) Text.isAsciiBlank = true := by
        rw [List.getLast?_cons] at hfront
        cases hcs : cs.getLast? with
        | none => rwa [hcs] at hfront
        | some d => rwa [hcs] at hfront
      obtain ⟨p, hp, hle⟩ := ih hlast (place + c.utf8Size)
      exact ⟨p, hp, by rw [Text.byteSize]; omega⟩

theorem Parted.byteSize_le {front' kw' rest' : List Char} (hne : keyword ≠ [])
    (hfind : findKeyword? keyword 0 false text = some (Text.byteSize front))
    (h : Parted keyword text front' kw' rest') : Text.byteSize front ≤ Text.byteSize front' := by
  obtain ⟨c, hc, hblank⟩ := h.before
  have hfront : front'.getLast?.elim false Text.isAsciiBlank = true := by
    rw [Option.mem_def.mp hc]
    exact hblank
  obtain ⟨p, hp, hle⟩ := exists_findKeyword?_le (h.spells.ne_nil hne)
    (startsWith_of_spells h.spells h.behind) hfront 0
  rw [← h.text_eq, hfind] at hp
  cases hp
  rwa [Nat.zero_add] at hle

end Search

section Cut

/-- A text is parted at the first keyword, or there is none; neither cut fails. -/
theorem splitAt_cases (keyword text : List Char) :
    (findKeyword? keyword 0 false text = none ∧ Query.splitAt keyword text = .ok none) ∨
      ∃ front kw rest, Parted keyword text front kw rest ∧
        findKeyword? keyword 0 false text = some (Text.byteSize front) ∧
        Query.splitAt keyword text = .ok (some (Text.trimEnd front, Text.trimStart rest)) := by
  cases hfind : findKeyword? keyword 0 false text with
  | none =>
    refine .inl ⟨rfl, ?_⟩
    rw [Query.splitAt, hfind]
  | some p =>
    obtain ⟨front, kw, rest, hparted, rfl⟩ := exists_parted hfind
    refine .inr ⟨front, kw, rest, hparted, rfl, ?_⟩
    have hbefore : cut text 0 (Text.byteSize front) = .ok front := by
      rw [hparted.text_eq]
      exact cut_prefix _ _
    have hafter : cut text (Text.byteSize front + Text.byteSize keyword) (Text.byteSize text) =
        .ok rest := by
      rw [hparted.text_eq, ← hparted.spells.byteSize, ← Text.byteSize_append, ← List.append_assoc]
      exact cut_suffix _ _
    rw [Query.splitAt, hfind]
    dsimp only
    rw [hbefore, hafter]
    rfl

/-- A text starts with `SELECT` and ASCII white space, or it is no query. -/
theorem afterSelect_cases (text : List Char) :
    afterSelect text = .error (.missingSelect (String.ofList text)) ∨
      ∃ kw c rest, text = kw ++ c :: rest ∧ Spells "SELECT".toList kw ∧
        Text.isAsciiBlank c = true ∧ afterSelect text = .ok (Text.trimStart (c :: rest)) := by
  unfold afterSelect
  split
  next c rest hafter =>
    obtain ⟨kw, hkw, htext⟩ := exists_of_afterKeyword? hafter
    split_ifs with hc
    · have hcut : cut text 6 (Text.byteSize text) = .ok (c :: rest) := by
        have hsize : Text.byteSize kw = 6 := hkw.byteSize
        rw [htext, ← hsize]
        exact cut_suffix _ _
      refine .inr ⟨kw, c, rest, htext, hkw, hc, ?_⟩
      rw [hcut]
      rfl
    · exact .inl rfl
  next => exact .inl rfl

end Cut

end EntityStore.Query
