import EntityStore.Proofs.Except
import EntityStore.Proofs.Text.Pieces
import EntityStore.Query.Parser

/-! The clauses of a query: its lists are found between the keywords, and their names are read. -/
namespace EntityStore.Query

variable {keyword kw cs gap rest text query : List Char} {names : List String} {place : Nat}

section Keyword

/-- A keyword in some ASCII letter case. -/
def Spells (keyword cs : List Char) : Prop := cs.map Char.toLower = keyword.map Char.toLower

instance (keyword cs : List Char) : Decidable (Spells keyword cs) :=
  inferInstanceAs (Decidable (_ = _))

/-- White space that sets a keyword off: spaces, tabs and line breaks, at least one. -/
structure IsGap (gap : List Char) : Prop where
  ne_nil : gap ≠ []
  blank : ∀ c ∈ gap, Text.isAsciiBlank c = true

theorem IsGap.isBlank (h : IsGap gap) : Text.IsBlank gap :=
  fun c hc => Text.isBlank_of_isAsciiBlank (h.blank c hc)

theorem Spells.byteSize (h : Spells keyword kw) : Text.byteSize kw = Text.byteSize keyword := by
  rw [← Text.byteSize_map_toLower kw, h, Text.byteSize_map_toLower]

theorem afterKeyword?_append (h : Spells keyword kw) (rest : List Char) :
    afterKeyword? keyword (kw ++ rest) = some rest := by
  induction keyword generalizing kw with
  | nil =>
    cases List.map_eq_nil_iff.mp h
    rfl
  | cons k ks ih =>
    obtain ⟨c, cs, rfl, hc, hcs⟩ := List.map_eq_cons_iff.mp h
    rw [List.cons_append, afterKeyword?, if_pos hc.symm, ih hcs]

theorem exists_of_afterKeyword? (h : afterKeyword? keyword text = some rest) :
    ∃ kw, Spells keyword kw ∧ text = kw ++ rest := by
  induction keyword generalizing text with
  | nil =>
    cases h
    exact ⟨[], rfl, rfl⟩
  | cons k ks ih =>
    cases text with
    | nil => cases h
    | cons c cs =>
      rw [afterKeyword?] at h
      split_ifs at h with hc
      obtain ⟨kw, hkw, rfl⟩ := ih h
      refine ⟨c :: kw, ?_, rfl⟩
      rw [Spells, List.map_cons, List.map_cons, hc, hkw]

/-- What ends a name in a list. -/
def isStop (c : Char) : Bool := Text.isBlank c || c == ','

theorem isStop_of_isBlank {c : Char} (h : Text.isBlank c = true) : isStop c = true :=
  Bool.or_eq_true_iff.mpr (.inl h)

theorem IsGap.isStop (h : IsGap gap) : ∀ c ∈ gap, isStop c = true :=
  fun c hc => isStop_of_isBlank (h.isBlank c hc)

theorem head?_append_of_stops (hne : gap ≠ []) (hgap : ∀ c ∈ gap, isStop c = true)
    (rest : List Char) : ∀ c ∈ (gap ++ rest).head?, isStop c = true := by
  intro c hc
  obtain ⟨d, ds, rfl⟩ := List.exists_cons_of_ne_nil hne
  exact Option.mem_some.mp hc ▸ hgap d List.mem_cons_self

/-- A keyword with letters that do not end a name. -/
structure IsSolid (keyword : List Char) : Prop where
  ne_nil : keyword ≠ []
  solid : ∀ c ∈ keyword, isStop c.toLower = false

theorem toLower_of_isStop {c : Char} (h : isStop c = true) : c.toLower = c := by
  rcases Bool.or_eq_true_iff.mp h with h | h
  · have hsame := Text.forall_blank (p := fun c => c.toLower == c) (by decide) h
    exact beq_iff_eq.mp hsame
  · rw [beq_iff_eq.mp h]
    rfl

theorem Spells.ne_nil (h : Spells keyword kw) (hne : keyword ≠ []) : kw ≠ [] := by
  rintro rfl
  exact hne (List.map_eq_nil_iff.mp (Eq.symm h))

theorem Spells.forall_mem {p : Char → Bool} (h : Spells keyword kw)
    (hkeyword : ∀ k ∈ keyword, p k.toLower = true)
    (hp : ∀ c : Char, p c.toLower = true → p c = true) : ∀ c ∈ kw, p c = true := by
  intro c hc
  have hlower : c.toLower ∈ keyword.map Char.toLower := h ▸ List.mem_map_of_mem hc
  obtain ⟨k, hk, heq⟩ := List.mem_map.mp hlower
  exact hp c (heq ▸ hkeyword k hk)

theorem Spells.solid (hkeyword : IsSolid keyword) (h : Spells keyword kw) :
    ∀ c ∈ kw, isStop c = false := by
  have hsolid := h.forall_mem (p := fun c => !isStop c)
    (fun k hk => by simp [hkeyword.solid k hk]) fun c hc => by
      cases hstop : isStop c with
      | false => rfl
      | true =>
        rw [toLower_of_isStop hstop, hstop] at hc
        cases hc
  exact fun c hc => by simpa using hsolid c hc

theorem takeWhile_append_stop (hcs : ∀ c ∈ cs, isStop c = false)
    (hrest : ∀ c ∈ rest.head?, isStop c = true) :
    (cs ++ rest).takeWhile (fun c => !isStop c) = cs := by
  have hsolid : ∀ c ∈ cs, (!isStop c) = true := fun c hc => by rw [hcs c hc]; rfl
  rw [List.takeWhile_append_of_pos hsolid]
  cases rest with
  | nil => simp
  | cons c rest =>
    have hc : ¬ (!isStop c) = true := by simp [hrest c rfl]
    rw [List.takeWhile_cons_of_neg (p := fun c => !isStop c) hc, List.append_nil]

/-- No keyword starts where another word stands. -/
theorem startsWith_eq_false (hkeyword : IsSolid keyword) (hcs : ∀ c ∈ cs, isStop c = false)
    (hrest : ∀ c ∈ rest.head?, isStop c = true) (hother : ¬ Spells keyword cs) :
    startsWith keyword (cs ++ rest) = false := by
  have hwhole {tail : List Char} (hafter : afterKeyword? keyword (cs ++ rest) = some tail)
      (htail : ∀ c ∈ tail.head?, isStop c = true) : False := by
    obtain ⟨kw, hkw, heq⟩ := exists_of_afterKeyword? hafter
    have hword := congrArg (List.takeWhile fun c => !isStop c) heq
    rw [takeWhile_append_stop hcs hrest, takeWhile_append_stop (hkw.solid hkeyword) htail] at hword
    exact hother (hword ▸ hkw)
  unfold startsWith
  split
  next hafter => exact (hwhole hafter nofun).elim
  next c tail hafter =>
    cases hc : Text.isAsciiBlank c with
    | false => rfl
    | true =>
      refine (hwhole hafter fun d hd => ?_).elim
      cases Option.mem_some.mp hd
      exact isStop_of_isBlank (Text.isBlank_of_isAsciiBlank hc)
  next => rfl

theorem startsWith_append (h : Spells keyword kw) (hgap : IsGap gap) (rest : List Char) :
    startsWith keyword (kw ++ (gap ++ rest)) = true := by
  obtain ⟨c, cs, rfl⟩ := List.exists_cons_of_ne_nil hgap.ne_nil
  rw [startsWith, afterKeyword?_append h]
  exact hgap.blank c List.mem_cons_self

end Keyword

section Search

theorem isAsciiBlank_of_not_isStop {c : Char} (hc : isStop c = false) :
    Text.isAsciiBlank c = false := by
  cases hblank : Text.isAsciiBlank c with
  | false => rfl
  | true =>
    rw [isStop, Text.isBlank_of_isAsciiBlank hblank] at hc
    cases hc

theorem findKeyword?_cons {c : Char} {border : Bool}
    (h : (border && startsWith keyword (c :: cs)) = false) (place : Nat) :
    findKeyword? keyword place border (c :: cs) =
      findKeyword? keyword (place + c.utf8Size) (Text.isAsciiBlank c) cs := by
  rw [findKeyword?, h, if_neg Bool.false_ne_true]

/-- Inside a word no keyword starts. -/
theorem findKeyword?_inside (hcs : ∀ c ∈ cs, isStop c = false) (place : Nat) (rest : List Char) :
    findKeyword? keyword place false (cs ++ rest) =
      findKeyword? keyword (place + Text.byteSize cs) false rest := by
  induction cs generalizing place with
  | nil => rfl
  | cons c cs ih =>
    obtain ⟨hc, hcs⟩ := List.forall_mem_cons.mp hcs
    rw [List.cons_append, findKeyword?_cons (Bool.false_and _), isAsciiBlank_of_not_isStop hc,
      ih hcs, Text.byteSize, Nat.add_assoc]

/-- A word other than the keyword is passed over. -/
theorem findKeyword?_word (hkeyword : IsSolid keyword) (hne : cs ≠ [])
    (hcs : ∀ c ∈ cs, isStop c = false) (hrest : ∀ c ∈ rest.head?, isStop c = true)
    (hother : ¬ Spells keyword cs) (place : Nat) (border : Bool) :
    findKeyword? keyword place border (cs ++ rest) =
      findKeyword? keyword (place + Text.byteSize cs) false rest := by
  have hstart := startsWith_eq_false hkeyword hcs hrest hother
  obtain ⟨c, cs, rfl⟩ := List.exists_cons_of_ne_nil hne
  obtain ⟨hc, hcs⟩ := List.forall_mem_cons.mp hcs
  rw [List.cons_append] at hstart ⊢
  rw [findKeyword?_cons (by rw [hstart, Bool.and_false]), isAsciiBlank_of_not_isStop hc,
    findKeyword?_inside hcs, Text.byteSize, Nat.add_assoc]

/-- No keyword starts with what ends a name. -/
theorem startsWith_stop (hkeyword : IsSolid keyword) {c : Char} (hc : isStop c = true)
    (cs : List Char) : startsWith keyword (c :: cs) = false := by
  have hnil : ∀ d ∈ [], isStop d = false := nofun
  have hhead : ∀ d ∈ (c :: cs).head?, isStop d = true := fun d hd => Option.mem_some.mp hd ▸ hc
  exact startsWith_eq_false hkeyword hnil hhead fun h => h.ne_nil hkeyword.ne_nil rfl

/-- What stands between names is passed over; its last character is the border of what follows. -/
theorem findKeyword?_stops (hkeyword : IsSolid keyword) (hgap : ∀ c ∈ gap, isStop c = true)
    (place : Nat) (border : Bool) (rest : List Char) :
    findKeyword? keyword place border (gap ++ rest) =
      findKeyword? keyword (place + Text.byteSize gap)
        (gap.getLast?.elim border Text.isAsciiBlank) rest := by
  induction gap generalizing place border with
  | nil => rfl
  | cons c cs ih =>
    obtain ⟨hc, hcs⟩ := List.forall_mem_cons.mp hgap
    have hstart := startsWith_stop hkeyword hc (cs ++ rest)
    rw [List.cons_append, findKeyword?_cons (by rw [hstart, Bool.and_false]), ih hcs,
      Text.byteSize, Nat.add_assoc, List.getLast?_cons]
    cases cs.getLast? <;> rfl

theorem IsGap.border (h : IsGap gap) (border : Bool) :
    gap.getLast?.elim border Text.isAsciiBlank = true := by
  rw [List.getLast?_eq_some_getLast h.ne_nil]
  exact h.blank _ (List.getLast_mem h.ne_nil)

end Search

section Lists

/-- The keywords that end lists. -/
def listEnds : List (List Char) := ["FROM".toList, "WHERE".toList]

theorem isSolid_of_mem (h : keyword ∈ listEnds) : IsSolid keyword := by
  have hall : ∀ k ∈ listEnds, k ≠ [] ∧ k.all (fun c => !isStop c.toLower) = true := by decide
  obtain ⟨hne, hsolid⟩ := hall keyword h
  exact ⟨hne, by simpa using hsolid⟩

/-- A word that may stand in a list: it has no white space, commas or semicolons, and it is neither
of the keywords that end lists. -/
structure IsName (s : String) : Prop where
  ne_nil : s.toList ≠ []
  solid : ∀ c ∈ s.toList, isStop c = false ∧ c ≠ ';'
  other : ∀ keyword ∈ listEnds, ¬ Spells keyword s.toList

theorem isName_iff {s : String} : IsName s ↔ s.toList ≠ [] ∧
    s.toList.all (fun c => !isStop c && c != ';') = true ∧
    ∀ keyword ∈ listEnds, ¬ Spells keyword s.toList := by
  rw [List.all_eq_true]
  constructor
  · rintro ⟨hne, hsolid, hother⟩
    exact ⟨hne, fun c hc => by simpa using hsolid c hc, hother⟩
  · rintro ⟨hne, hsolid, hother⟩
    exact ⟨hne, fun c hc => by simpa using hsolid c hc, hother⟩

instance (s : String) : Decidable (IsName s) := decidable_of_iff' _ isName_iff

/-- The text of a list: its names, with commas and any white space around them in between. -/
inductive ListText : List String → List Char → Prop
  | last (s : String) : ListText [s] s.toList
  | cons {gap gap' rest : List Char} {names : List String} (s : String) (hgap : Text.IsBlank gap)
      (hgap' : Text.IsBlank gap') (hrest : ListText names rest) :
      ListText (s :: names) (s.toList ++ (gap ++ ',' :: (gap' ++ rest)))

theorem isStop_separator {gap' : List Char} (hgap : Text.IsBlank gap) (hgap' : Text.IsBlank gap') :
    ∀ c ∈ gap ++ ',' :: gap', isStop c = true := by
  simp only [List.forall_mem_append, List.forall_mem_cons]
  exact ⟨fun c hc => isStop_of_isBlank (hgap c hc), rfl, fun c hc => isStop_of_isBlank (hgap' c hc)⟩

/-- The names of a list are passed over. -/
theorem findKeyword?_list (hmem : keyword ∈ listEnds) (h : ListText names text)
    (hnames : ∀ s ∈ names, IsName s) (hrest : ∀ c ∈ rest.head?, isStop c = true) (place : Nat)
    (border : Bool) :
    findKeyword? keyword place border (text ++ rest) =
      findKeyword? keyword (place + Text.byteSize text) false rest := by
  have hkeyword := isSolid_of_mem hmem
  induction h generalizing place border with
  | last s =>
    have hs := hnames s List.mem_cons_self
    exact findKeyword?_word hkeyword hs.ne_nil (fun c hc => (hs.solid c hc).1) hrest
      (hs.other keyword hmem) place border
  | @cons gap gap' tail names s hgap hgap' _ ih =>
    obtain ⟨hs, hnames⟩ := List.forall_mem_cons.mp hnames
    have hstops := isStop_separator hgap hgap'
    have hassoc : s.toList ++ (gap ++ ',' :: (gap' ++ tail)) ++ rest =
        s.toList ++ ((gap ++ ',' :: gap') ++ (tail ++ rest)) := by simp
    have hhead := head?_append_of_stops (by simp) hstops (tail ++ rest)
    rw [hassoc, findKeyword?_word hkeyword hs.ne_nil (fun c hc => (hs.solid c hc).1) hhead
        (hs.other keyword hmem), findKeyword?_stops hkeyword hstops, ih hnames]
    simp only [Text.byteSize, Text.byteSize_append, Nat.add_assoc]

/-- A text that is not empty, with no white space at its ends and no semicolon at its end. -/
structure Trimmed (cs : List Char) : Prop extends Text.Tight cs where
  ne_nil : cs ≠ []
  last_ne : ∀ c ∈ cs.getLast?, c ≠ ';'

/-- What stands between trimmed texts does not matter. -/
theorem Trimmed.between (hcs : Trimmed cs) (gap : List Char) (hrest : Trimmed rest) :
    Trimmed (cs ++ (gap ++ rest)) := by
  have hlast : (cs ++ (gap ++ rest)).getLast? = rest.getLast? := by
    rw [← List.append_assoc, List.getLast?_append_of_ne_nil _ hrest.ne_nil]
  obtain ⟨c, cs, rfl⟩ := List.exists_cons_of_ne_nil hcs.ne_nil
  exact ⟨⟨hcs.head, fun d hd => hrest.last d (hlast ▸ hd)⟩, List.cons_ne_nil _ _,
    fun d hd => hrest.last_ne d (hlast ▸ hd)⟩

theorem not_isBlank_of_not_isStop {c : Char} (hc : isStop c = false) : Text.isBlank c = false :=
  (Bool.or_eq_false_iff.mp hc).1

theorem trimmed_of_forall (hne : cs ≠ []) (h : ∀ c ∈ cs, Text.isBlank c = false ∧ c ≠ ';') :
    Trimmed cs :=
  ⟨⟨fun c hc => (h c (List.mem_of_mem_head? hc)).1, fun c hc => (h c (List.mem_of_getLast? hc)).1⟩,
    hne, fun c hc => (h c (List.mem_of_getLast? hc)).2⟩

theorem IsName.trimmed {s : String} (hs : IsName s) : Trimmed s.toList :=
  trimmed_of_forall hs.ne_nil fun c hc =>
    ⟨not_isBlank_of_not_isStop (hs.solid c hc).1, (hs.solid c hc).2⟩

theorem trimmed_list (h : ListText names text) (hnames : ∀ s ∈ names, IsName s) :
    Trimmed text := by
  induction h with
  | last s => exact (hnames s List.mem_cons_self).trimmed
  | @cons gap gap' rest names s _ _ _ ih =>
    obtain ⟨hs, hnames⟩ := List.forall_mem_cons.mp hnames
    have hassoc : gap ++ ',' :: (gap' ++ rest) = (gap ++ ',' :: gap') ++ rest := by simp
    rw [hassoc]
    exact hs.trimmed.between _ (ih hnames)

/-- The pieces between the commas of a list are its names, but for white space around them. -/
theorem split_list (h : ListText names text) (hnames : ∀ s ∈ names, IsName s)
    (hgap : Text.IsBlank gap) :
    (Text.split ',' (gap ++ text)).map Text.trim = names.map String.toList := by
  have hcomma {gap : List Char} (hgap : Text.IsBlank gap) : ',' ∉ gap := fun hmem =>
    absurd (hgap ',' hmem) (by decide)
  have hname {s : String} (hs : IsName s) : ',' ∉ s.toList := fun hmem =>
    absurd (hs.solid ',' hmem).1 (by decide)
  induction h generalizing gap with
  | last s =>
    have hs := hnames s List.mem_cons_self
    have hnot : ',' ∉ gap ++ s.toList := fun hmem =>
      (List.mem_append.mp hmem).elim (hcomma hgap) (hname hs)
    have htrim := Text.trim_append hgap .nil hs.trimmed.toTight hs.ne_nil
    rw [List.append_nil] at htrim
    rw [Text.split_eq_singleton hnot, List.map_singleton, htrim]
    rfl
  | @cons gap₁ gap₂ rest names s hgap₁ hgap₂ _ ih =>
    obtain ⟨hs, hnames⟩ := List.forall_mem_cons.mp hnames
    have hnot : ',' ∉ gap ++ (s.toList ++ gap₁) := by
      simp only [List.mem_append, not_or]
      exact ⟨hcomma hgap, hname hs, hcomma hgap₁⟩
    have hassoc : gap ++ (s.toList ++ (gap₁ ++ ',' :: (gap₂ ++ rest))) =
        (gap ++ (s.toList ++ gap₁)) ++ ',' :: (gap₂ ++ rest) := by simp
    rw [hassoc, Text.split_append_cons hnot, List.map_cons, ih hnames hgap₂,
      Text.trim_append hgap hgap₁ hs.trimmed.toTight hs.ne_nil, List.map_cons]

theorem names_of_list (clause : ListClause) (query : List Char) (h : ListText names text)
    (hnames : ∀ s ∈ names, IsName s) : Query.names clause query text = .ok names := by
  have hsplit : (Text.split ',' text).map Text.trim = names.map String.toList :=
    split_list h hnames .nil
  have hnonempty : (names.map String.toList).any List.isEmpty = false := by
    rw [List.any_map, List.any_eq_false]
    intro s hs
    simpa using (hnames s hs).ne_nil
  have hback : (names.map String.toList).map String.ofList = names := by
    rw [List.map_map]
    exact (List.map_congr_left fun s _ => String.ofList_toList).trans (List.map_id names)
  unfold Query.names
  dsimp only
  rw [hsplit, hnonempty, if_neg Bool.false_ne_true, hback]

end Lists

section Cut

theorem cut_append (as bs cs : List Char) :
    cut (as ++ (bs ++ cs)) (Text.byteSize as) (Text.byteSize as + Text.byteSize bs) = .ok bs := by
  rw [cut, Text.slice?_append]

theorem cut_prefix (bs cs : List Char) : cut (bs ++ cs) 0 (Text.byteSize bs) = .ok bs := by
  have hcut := cut_append [] bs cs
  rwa [Text.byteSize, Nat.zero_add] at hcut

theorem cut_suffix (as bs : List Char) :
    cut (as ++ bs) (Text.byteSize as) (Text.byteSize (as ++ bs)) = .ok bs := by
  have hcut := cut_append as bs []
  rwa [List.append_nil, ← Text.byteSize_append] at hcut

/-- The keyword is found where it stands between white space. -/
theorem findKeyword?_here (hkeyword : IsSolid keyword) (hkw : Spells keyword kw)
    (hgap : IsGap gap) (place : Nat) (rest : List Char) :
    findKeyword? keyword place true (kw ++ (gap ++ rest)) = some place := by
  have hstart := startsWith_append hkw hgap rest
  obtain ⟨c, cs, rfl⟩ := List.exists_cons_of_ne_nil (hkw.ne_nil hkeyword.ne_nil)
  rw [List.cons_append] at hstart ⊢
  rw [findKeyword?, hstart]
  rfl

/-- A text is parted at the keyword that follows a list. -/
theorem splitAt_of_list (hmem : keyword ∈ listEnds) (h : ListText names text)
    (hnames : ∀ s ∈ names, IsName s) {gap' : List Char} (hgap : IsGap gap)
    (hkw : Spells keyword kw) (hgap' : IsGap gap') (hrest : Trimmed rest) :
    Query.splitAt keyword (text ++ (gap ++ (kw ++ (gap' ++ rest)))) = .ok (some (text, rest)) := by
  have hkeyword := isSolid_of_mem hmem
  have hstop := head?_append_of_stops hgap.ne_nil hgap.isStop (kw ++ (gap' ++ rest))
  have hfind : findKeyword? keyword 0 false (text ++ (gap ++ (kw ++ (gap' ++ rest)))) =
      some (Text.byteSize (text ++ gap)) := by
    rw [findKeyword?_list hmem h hnames hstop, findKeyword?_stops hkeyword hgap.isStop,
      hgap.border, findKeyword?_here hkeyword hkw hgap', Nat.zero_add, Text.byteSize_append]
  have hbefore : cut (text ++ (gap ++ (kw ++ (gap' ++ rest)))) 0 (Text.byteSize (text ++ gap)) =
      .ok (text ++ gap) := by
    rw [← List.append_assoc]
    exact cut_prefix _ _
  have hafter : cut (text ++ (gap ++ (kw ++ (gap' ++ rest))))
      (Text.byteSize (text ++ gap) + Text.byteSize keyword)
      (Text.byteSize (text ++ (gap ++ (kw ++ (gap' ++ rest))))) = .ok (gap' ++ rest) := by
    rw [← hkw.byteSize, ← Text.byteSize_append, ← List.append_assoc, ← List.append_assoc]
    exact cut_suffix _ _
  unfold Query.splitAt
  rw [hfind]
  dsimp only
  rw [hbefore, hafter]
  simp only [Except.ok_bind, Except.pure_eq_ok,
    Text.trimEnd_append hgap.isBlank (trimmed_list h hnames).toTight,
    Text.trimStart_append hgap'.isBlank hrest.toTight]

/-- A list that ends a text has no keyword in it. -/
theorem splitAt_of_last (hmem : keyword ∈ listEnds) (h : ListText names text)
    (hnames : ∀ s ∈ names, IsName s) : Query.splitAt keyword text = .ok none := by
  have hhead : ∀ c ∈ [].head?, isStop c = true := nofun
  have hfind := findKeyword?_list hmem h hnames hhead 0 false
  rw [List.append_nil] at hfind
  rw [Query.splitAt, hfind]
  rfl

theorem afterSelect_append (hkw : Spells "SELECT".toList kw) (hgap : IsGap gap)
    (hrest : Trimmed rest) : afterSelect (kw ++ (gap ++ rest)) = .ok rest := by
  have hafter := afterKeyword?_append hkw (gap ++ rest)
  have hcut : cut (kw ++ (gap ++ rest)) 6 (Text.byteSize (kw ++ (gap ++ rest))) =
      .ok (gap ++ rest) := by
    have hsize : Text.byteSize kw = 6 := hkw.byteSize
    rw [← hsize]
    exact cut_suffix _ _
  have htrim := Text.trimStart_append hgap.isBlank hrest.toTight
  obtain ⟨c, cs, rfl⟩ := List.exists_cons_of_ne_nil hgap.ne_nil
  have hc := hgap.blank c List.mem_cons_self
  unfold afterSelect
  rw [hafter]
  dsimp only [List.cons_append]
  rw [if_pos hc, ← List.cons_append, hcut, Except.ok_bind, Except.pure_eq_ok, htrim]

/-- The semicolons at the end of a query are left out. -/
theorem body_append (htext : Trimmed text) {semicolons : List Char}
    (hsemicolons : ∀ c ∈ semicolons, c = ';') : body (text ++ semicolons) = text := by
  have htight : Text.Tight (text ++ semicolons) := by
    obtain ⟨c, cs, rfl⟩ := List.exists_cons_of_ne_nil htext.ne_nil
    refine ⟨htext.head, fun d hd => ?_⟩
    rw [List.getLast?_append] at hd
    cases hlast : semicolons.getLast? with
    | none =>
      rw [hlast] at hd
      exact htext.last d hd
    | some e =>
      rw [hlast] at hd
      cases Option.mem_some.mp hd
      rw [hsemicolons d (List.mem_of_getLast? hlast)]
      rfl
  have hend : Text.trimEndBy (· == ';') (text ++ semicolons) = text :=
    Text.trimEndBy_append (fun c hc => beq_iff_eq.mpr (hsemicolons c hc))
      fun c hc => beq_eq_false_iff_ne.mpr (htext.last_ne c hc)
  rw [body, Text.trim_of_tight htight, hend, Text.trimEnd_of_tight htext.toTight]

end Cut

end EntityStore.Query
