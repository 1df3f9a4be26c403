import EntityStore.Proofs.Query.Parting
import EntityStore.Proofs.Query.Rendering
import Mathlib.Data.List.Infix

/-! What the lists of a query name: the pieces between commas, whatever stands in them. -/
namespace EntityStore.Query

variable {text cs ds gap gap' rest seg : List Char} {names : List String}

section Entries

/-- What a list can name: a text without commas, and with no white space at its ends. -/
structure IsEntry (s : String) : Prop extends Text.Tight s.toList where
  ne_nil : s.toList ≠ []
  comma_notMem : ',' ∉ s.toList

/-- A word: a text without white space. -/
structure IsWord (s : String) : Prop where
  ne_nil : s.toList ≠ []
  solid : ∀ c ∈ s.toList, Text.isBlank c = false

/-- Two words in a text stand side by side, with white space but no comma between them. -/
def SideBySide (text : List Char) : Prop := ∃ a gap b, a :: (gap ++ [b]) <:+: text ∧
  isStop a = false ∧ isStop b = false ∧ gap ≠ [] ∧ Text.IsBlank gap

theorem listText_trim {pieces : List (List Char)} {p : List Char}
    (h : ∀ q ∈ p :: pieces, Text.trim q ≠ []) :
    ∃ gap gap' inner, Text.IsBlank gap ∧ Text.IsBlank gap' ∧
      p ++ pieces.flatMap (',' :: ·) = gap ++ (inner ++ gap') ∧
      ListText ((p :: pieces).map fun q => String.ofList (Text.trim q)) inner := by
  induction pieces generalizing p with
  | nil =>
    obtain ⟨gap, gap', hgap, hgap', hp⟩ := Text.exists_trim p
    refine ⟨gap, gap', Text.trim p, hgap, hgap', by simpa using hp, ?_⟩
    have hlast := ListText.last (String.ofList (Text.trim p))
    rwa [String.toList_ofList] at hlast
  | cons q qs ih =>
    obtain ⟨gap, gap', hgap, hgap', hp⟩ := Text.exists_trim p
    obtain ⟨gap₁, gap₂, inner, hgap₁, hgap₂, hrest, htext⟩ := ih (List.forall_mem_cons.mp h).2
    have hcons := ListText.cons (String.ofList (Text.trim p)) hgap' hgap₁ htext
    refine ⟨gap, gap₂, _, hgap, hgap₂, ?_, hcons⟩
    rw [String.toList_ofList, List.flatMap_cons, List.cons_append, hrest]
    nth_rewrite 1 [hp]
    simp

theorem eq_nil_of_tight (htight : Text.Tight (gap ++ cs)) (hgap : Text.IsBlank gap) :
    gap = [] := by
  cases gap with
  | nil => rfl
  | cons c gap =>
    have hc := htight.head c rfl
    rw [hgap c List.mem_cons_self] at hc
    cases hc

theorem eq_nil_of_tight_append (htight : Text.Tight (cs ++ gap)) (hgap : Text.IsBlank gap) :
    gap = [] := by
  cases hlast : gap.getLast? with
  | none => exact List.getLast?_eq_none_iff.mp hlast
  | some c =>
    have hc := htight.last c (by rw [List.getLast?_append, hlast]; rfl)
    rw [hgap c (List.mem_of_getLast? hlast)] at hc
    cases hc

/-- The names of a list are the pieces between its commas, without the white space around them. -/
theorem listText_of_names {list : ListClause} {query : List Char} (htight : Text.Tight text)
    (h : Query.names list query text = .ok names) :
    ListText names text ∧ ∀ s ∈ names, IsEntry s := by
  unfold Query.names at h
  dsimp only at h
  split_ifs at h with hempty
  rw [Bool.not_eq_true, List.any_eq_false] at hempty
  obtain ⟨p, pieces, hsplit⟩ := List.exists_cons_of_ne_nil (Text.split_ne_nil ',' text)
  have hpieces : ∀ q ∈ p :: pieces, Text.trim q ≠ [] := by
    intro q hq
    have hq := hempty _ (List.mem_map_of_mem (hsplit ▸ hq))
    simpa using hq
  have hnames : (p :: pieces).map (fun q => String.ofList (Text.trim q)) = names := by
    rw [← Except.ok.inj h, hsplit, List.map_map]
    rfl
  obtain ⟨gap, gap', inner, hgap, hgap', htext, hlist⟩ := listText_trim hpieces
  rw [← Text.eq_of_split hsplit] at htext
  rw [htext] at htight
  obtain rfl := eq_nil_of_tight htight hgap
  rw [List.nil_append] at htight
  obtain rfl := eq_nil_of_tight_append htight hgap'
  rw [List.nil_append, List.append_nil] at htext
  refine ⟨htext ▸ hnames ▸ hlist, fun s hs => ?_⟩
  obtain ⟨q, hq, rfl⟩ := List.mem_map.mp (hnames ▸ hs)
  obtain ⟨_, _, -, -, hparts⟩ := Text.exists_trim q
  have hcomma := Text.notMem_of_mem_split (hsplit ▸ hq)
  rw [hparts] at hcomma
  refine ⟨?_, ?_, ?_⟩
  all_goals rw [String.toList_ofList]
  · exact Text.tight_trim q
  · exact hpieces q hq
  · exact fun hmem => hcomma (List.mem_append_right _ (List.mem_append_left _ hmem))

end Entries

section Words

/-- What stands in a text beside separators stands before the first one or behind it. -/
theorem infix_of_append_sep {sep : Char} (hsep : sep ∉ seg) (h : seg <:+: cs ++ sep :: ds) :
    seg <:+: cs ∨ seg <:+: ds := by
  induction cs with
  | nil =>
    rcases List.infix_cons_iff.mp h with h | h
    · cases seg with
      | nil => exact .inl (List.infix_refl [])
      | cons c seg =>
        rw [(List.cons_prefix_cons.mp h).1] at hsep
        exact absurd List.mem_cons_self hsep
    · exact .inr h
  | cons c cs ih =>
    rcases List.infix_cons_iff.mp h with h | h
    · refine .inl (List.IsPrefix.isInfix ?_)
      have htake : seg = ((c :: cs) ++ sep :: ds).take seg.length := List.prefix_iff_eq_take.mp h
      by_cases hle : seg.length ≤ (c :: cs).length
      · rw [List.take_append_of_le_length hle] at htake
        exact List.prefix_iff_eq_take.mpr htake
      · -- Otherwise the separator is among the characters.
        obtain ⟨n, hn⟩ := Nat.exists_eq_add_of_lt (not_le.mp hle)
        rw [hn, Nat.add_assoc, List.take_length_add_append, List.take_succ_cons] at htake
        rw [htake] at hsep
        exact absurd (List.mem_append_right _ List.mem_cons_self) hsep
    · exact (ih h).imp_left fun h => h.trans (List.suffix_cons c cs).isInfix

theorem infix_of_append_left (hgap : Text.IsBlank gap) {a : Char} (ha : Text.isBlank a = false)
    (h : a :: seg <:+: gap ++ cs) : a :: seg <:+: cs := by
  induction gap with
  | nil => exact h
  | cons c gap ih =>
    obtain ⟨hc, hgap⟩ := List.forall_mem_cons.mp hgap
    rcases List.infix_cons_iff.mp h with h | h
    · rw [(List.cons_prefix_cons.mp h).1, hc] at ha
      cases ha
    · exact ih hgap h

theorem infix_of_append_right (hgap : Text.IsBlank gap) {b : Char} (hb : Text.isBlank b = false)
    (h : seg ++ [b] <:+: cs ++ gap) : seg ++ [b] <:+: cs := by
  have hreverse : b :: seg.reverse <:+: gap.reverse ++ cs.reverse := by
    simpa using List.reverse_infix.mpr h
  have hblank : Text.IsBlank gap.reverse := fun c hc => hgap c (List.mem_reverse.mp hc)
  have hmid := infix_of_append_left hblank hb hreverse
  rw [← List.reverse_infix]
  simpa using hmid

/-- Words that stand side by side in a list stand so in one of its names. -/
theorem exists_infix_of_listText (h : ListText names text) {a b : Char}
    (ha : Text.isBlank a = false) (hb : Text.isBlank b = false) (hcomma : ',' ∉ a :: (gap ++ [b]))
    (hmid : a :: (gap ++ [b]) <:+: text) : ∃ s ∈ names, a :: (gap ++ [b]) <:+: s.toList := by
  induction h with
  | last s => exact ⟨s, List.mem_cons_self, hmid⟩
  | @cons gap₁ gap₂ rest names s hgap₁ hgap₂ _ ih =>
    rw [← List.append_assoc] at hmid
    rcases infix_of_append_sep hcomma hmid with hmid | hmid
    · rw [← List.cons_append] at hmid ⊢
      exact ⟨s, List.mem_cons_self, infix_of_append_right hgap₁ hb hmid⟩
    · obtain ⟨s', hs', hmid⟩ := ih (infix_of_append_left hgap₂ ha hmid)
      exact ⟨s', List.mem_cons_of_mem _ hs', hmid⟩

theorem infix_of_mem_listText (h : ListText names text) {s : String} (hs : s ∈ names) :
    s.toList <:+: text := by
  induction h with
  | last s' =>
    rw [List.mem_singleton.mp hs]
  | @cons gap₁ gap₂ rest names s' _ _ _ ih =>
    rcases List.mem_cons.mp hs with rfl | hs
    · exact (List.prefix_append _ _).isInfix
    · refine (ih hs).trans ⟨s'.toList ++ (gap₁ ++ ',' :: gap₂), [], ?_⟩
      simp

theorem not_isStop_of_mem {s : String} (hs : IsEntry s) {c : Char} (hc : c ∈ s.toList)
    (hblank : Text.isBlank c = false) : isStop c = false := by
  have hne : c ≠ ',' := by
    rintro rfl
    exact hs.comma_notMem hc
  simp [isStop, hblank, hne]

/-- A name with white space inside has two words that stand side by side. -/
theorem IsEntry.sideBySide {s : String} (hs : IsEntry s) (hword : ¬ IsWord s) :
    SideBySide s.toList := by
  obtain ⟨c, hc, hblank⟩ : ∃ c ∈ s.toList, Text.isBlank c = true := by
    by_contra hnone
    push Not at hnone
    exact hword ⟨hs.ne_nil, fun c hc => by simpa using hnone c hc⟩
  obtain ⟨front, rest, htext⟩ := List.append_of_mem hc
  obtain ⟨gap, hgap, hfront⟩ := Text.exists_trimEnd front
  obtain ⟨gap', hgap', hrest⟩ := Text.exists_trimStart rest
  have hblanks : Text.IsBlank (gap ++ c :: gap') := by
    simp only [Text.IsBlank, List.forall_mem_append, List.forall_mem_cons]
    exact ⟨hgap, hblank, hgap'⟩
  have hparts : s.toList =
      Text.trimEnd front ++ ((gap ++ c :: gap') ++ Text.trimStart rest) := by
    rw [htext]
    nth_rewrite 1 [hfront]
    nth_rewrite 1 [hrest]
    simp
  have htight := hs.toTight
  rw [hparts] at htight
  -- A word stands before the white space, and another one behind it.
  obtain ⟨a, ha⟩ : ∃ a, (Text.trimEnd front).getLast? = some a := by
    cases hlast : (Text.trimEnd front).getLast? with
    | some a => exact ⟨a, rfl⟩
    | none =>
      rw [List.getLast?_eq_none_iff.mp hlast, List.nil_append] at htight
      have hnil := eq_nil_of_tight htight hblanks
      simp at hnil
  obtain ⟨b, hb⟩ : ∃ b, (Text.trimStart rest).head? = some b := by
    cases hhead : (Text.trimStart rest).head? with
    | some b => exact ⟨b, rfl⟩
    | none =>
      rw [List.head?_eq_none_iff.mp hhead, List.append_nil] at htight
      have hnil := eq_nil_of_tight_append htight hblanks
      simp at hnil
  obtain ⟨before, hbefore⟩ := List.getLast?_eq_some_iff.mp ha
  obtain ⟨behind, hbehind⟩ := List.head?_eq_some_iff.mp hb
  have hmem : a ∈ s.toList ∧ b ∈ s.toList := by
    rw [hparts, hbefore, hbehind]
    simp
  refine ⟨a, gap ++ c :: gap', b, ⟨before, behind, ?_⟩,
    not_isStop_of_mem hs hmem.1 (Text.getLast?_trimEndBy _ _ a ha),
    not_isStop_of_mem hs hmem.2 (Text.head?_trimStart _ b hb), by simp, hblanks⟩
  rw [hparts, hbefore, hbehind]
  simp

/-- The names of a list are words, unless two words in it stand side by side. -/
theorem words_iff (h : ListText names text) (hnames : ∀ s ∈ names, IsEntry s) :
    (∀ s ∈ names, IsWord s) ↔ ¬ SideBySide text := by
  constructor
  · rintro hwords ⟨a, gap, b, hmid, ha, hb, hne, hgap⟩
    have ha' := not_isBlank_of_not_isStop ha
    have hb' := not_isBlank_of_not_isStop hb
    have hcomma : ',' ∉ a :: (gap ++ [b]) := by
      simp only [List.mem_cons, List.mem_append, List.not_mem_nil, or_false, not_or]
      refine ⟨?_, fun hmem => absurd (hgap _ hmem) (by decide), ?_⟩ <;> rintro rfl
      · cases ha
      · cases hb
    obtain ⟨s, hs, hmid⟩ := exists_infix_of_listText h ha' hb' hcomma hmid
    obtain ⟨c, gap, rfl⟩ := List.exists_cons_of_ne_nil hne
    have hc := (hwords s hs).solid c (hmid.subset (by simp))
    rw [hgap c List.mem_cons_self] at hc
    cases hc
  · intro hside s hs
    by_contra hword
    obtain ⟨a, gap, b, hmid, hrest⟩ := (hnames s hs).sideBySide hword
    exact hside ⟨a, gap, b, hmid.trans (infix_of_mem_listText h hs), hrest⟩

end Words

section Lists

/-- White space that sets the pieces of a query apart. -/
structure Apart (gap : List Char) : Prop where
  ne_nil : gap ≠ []
  blank : Text.IsBlank gap

/-- What follows the kinds in a text: nothing, or `WHERE` and any text. -/
inductive Rest : List Char → Prop
  | absent : Rest []
  | stated {gap kw condition : List Char} (hgap : Apart gap) (hkw : Spells "WHERE".toList kw) :
      Rest (gap ++ (kw ++ condition))

/-- A text with a list behind `SELECT` and a list behind `FROM`. -/
inductive Laid (select source : List Char) : List Char → Prop
  | intro {kw gap gap' kw' gap'' rest : List Char} (hselect : Spells "SELECT".toList kw)
      (hgap : Apart gap) (hgap' : Apart gap') (hsource : Spells "FROM".toList kw')
      (hgap'' : Apart gap'')
      (hrest : Rest rest) :
      Laid select source (kw ++ (gap ++ (select ++ (gap' ++ (kw' ++ (gap'' ++ (source ++ rest)))))))

/-- What a list names, word by word or not. -/
structure Listed (names : List String) (text : List Char) : Prop where
  list : ListText names text
  entry : ∀ s ∈ names, IsEntry s
  words_iff : (∀ s ∈ names, IsWord s) ↔ ¬ SideBySide text

theorem listed_of_names {list : ListClause} {query : List Char} (htight : Text.Tight text)
    (h : Query.names list query text = .ok names) : Listed names text := by
  obtain ⟨hlist, hentry⟩ := listText_of_names htight h
  exact ⟨hlist, hentry, words_iff hlist hentry⟩

theorem tight_body (text : List Char) : Text.Tight (body text) := by
  refine Text.tight_trimEnd fun c hc => ?_
  have htight := Text.tight_trim text
  obtain ⟨gap, -, htrim⟩ := Text.exists_trimEndBy (· == ';') (Text.trim text)
  refine htight.head c ?_
  rw [htrim, List.head?_append, Option.mem_def.mp hc]
  rfl

/-- The piece before a keyword, and white space that sets it apart. -/
theorem Parted.exists_apart {keyword front kw rest : List Char}
    (h : Parted keyword text front kw rest) :
    ∃ gap, Apart gap ∧ front = Text.trimEnd front ++ gap := by
  obtain ⟨gap, hgap, hfront⟩ := Text.exists_trimEnd front
  refine ⟨gap, ⟨?_, hgap⟩, hfront⟩
  rintro rfl
  obtain ⟨c, hc, hblank⟩ := h.before
  rw [List.append_nil] at hfront
  rw [hfront] at hc
  have hsolid := Text.getLast?_trimEndBy _ _ c hc
  rw [Text.isBlank_of_isAsciiBlank hblank] at hsolid
  cases hsolid

theorem Parted.tight_front {keyword front kw rest : List Char}
    (h : Parted keyword text front kw rest) (htext : ∀ c ∈ text.head?, Text.isBlank c = false) :
    Text.Tight (Text.trimEnd front) := by
  refine Text.tight_trimEnd fun c hc => htext c ?_
  rw [h.text_eq, List.head?_append, Option.mem_def.mp hc]
  rfl

/-- White space stands before what follows ASCII white space. -/
theorem exists_apart_of_head (hhead : ∀ c ∈ cs.head?, Text.isAsciiBlank c = true)
    (hne : Text.trimStart cs ≠ []) : ∃ gap, Apart gap ∧ cs = gap ++ Text.trimStart cs := by
  obtain ⟨gap, hgap, hcs⟩ := Text.exists_trimStart cs
  refine ⟨gap, ⟨?_, hgap⟩, hcs⟩
  rintro rfl
  obtain ⟨c, rest, hstart⟩ := List.exists_cons_of_ne_nil hne
  have hsolid := Text.head?_trimStart cs c (by rw [hstart]; rfl)
  rw [List.nil_append, hstart] at hcs
  rw [Text.isBlank_of_isAsciiBlank (hhead c (by rw [hcs]; rfl))] at hsolid
  cases hsolid

/-- What stands behind `SELECT`, and the white space in between. -/
theorem exists_of_afterSelect (h : afterSelect text = .ok rest) (hne : rest ≠ []) :
    (∀ c ∈ rest.head?, Text.isBlank c = false) ∧
      ∃ kw gap, Spells "SELECT".toList kw ∧ Apart gap ∧ text = kw ++ (gap ++ rest) := by
  rcases afterSelect_cases text with hcase | ⟨kw, c, behind, htext, hkw, hc, hcase⟩
  · cases hcase.symm.trans h
  cases hcase.symm.trans h
  have hhead : ∀ d ∈ (c :: behind).head?, Text.isAsciiBlank d = true :=
    fun d hd => Option.mem_some.mp hd ▸ hc
  obtain ⟨gap, hgap, hbehind⟩ := exists_apart_of_head hhead hne
  exact ⟨Text.head?_trimStart _, kw, gap, hkw, hgap, by rw [htext, ← hbehind]⟩

/-- What stands before and behind a keyword, and the white space in between. -/
theorem exists_of_splitAt {keyword front : List Char}
    (h : Query.splitAt keyword text = .ok (some (front, rest))) (hne : rest ≠ []) :
    (∀ c ∈ rest.head?, Text.isBlank c = false) ∧
      ((∀ c ∈ text.head?, Text.isBlank c = false) → Text.Tight front) ∧
      ∃ gap kw gap', Apart gap ∧ Spells keyword kw ∧ Apart gap' ∧
        text = front ++ (gap ++ (kw ++ (gap' ++ rest))) := by
  rcases splitAt_cases keyword text with ⟨-, hcase⟩ | ⟨before, kw, behind, hparted, -, hcase⟩
  · cases hcase.symm.trans h
  cases hcase.symm.trans h
  obtain ⟨gap, hgap, hbefore⟩ := hparted.exists_apart
  obtain ⟨gap', hgap', hbehind⟩ := exists_apart_of_head hparted.behind hne
  refine ⟨Text.head?_trimStart _, hparted.tight_front, gap, kw, gap', hgap, hparted.spells, hgap',
    ?_⟩
  rw [← hbehind, ← List.append_assoc, ← hbefore, hparted.text_eq]

theorem items_select (names : List String) :
    Selection.items (if names = ["*"] then .all else .names names) = names := by
  split_ifs with h
  · exact h.symm
  · rfl

theorem items_source (names : List String) :
    Source.items (if names = ["*"] then .all else .names names) = names := by
  split_ifs with h
  · exact h.symm
  · rfl

/-- What the lists of a query are read from. -/
theorem exists_of_parse {query : String} {q : Query} (h : Query.parse query = .ok q) :
    ∃ rest select rest' clauses, afterSelect (body query.toList) = .ok rest ∧
      Query.splitAt "FROM".toList rest = .ok (some (select, rest')) ∧
      Query.splitAt "WHERE".toList rest' = .ok clauses ∧
      Query.names .select (body query.toList) select = .ok q.select.items ∧
      Query.names .source (body query.toList) ((clauses.map (·.1)).getD rest') =
        .ok q.source.items := by
  unfold Query.parse at h
  dsimp only at h
  obtain ⟨rest, hafter, h⟩ := Except.bind_eq_ok_iff.mp h
  obtain ⟨clauses, hfrom, h⟩ := Except.bind_eq_ok_iff.mp h
  cases clauses with
  | none => cases h
  | some pieces =>
    obtain ⟨select, rest'⟩ := pieces
    obtain ⟨clauses, hwhere, h⟩ := Except.bind_eq_ok_iff.mp h
    obtain ⟨names, hselect, h⟩ := Except.bind_eq_ok_iff.mp h
    obtain ⟨names', hsource, h⟩ := Except.bind_eq_ok_iff.mp h
    have hitems : q.select.items = names ∧ q.source.items = names' := by
      cases clauses with
      | none =>
        cases h
        exact ⟨items_select names, items_source names'⟩
      | some clauses =>
        obtain ⟨condition, -, h⟩ := Except.bind_eq_ok_iff.mp h
        cases h
        exact ⟨items_select names, items_source names'⟩
    refine ⟨rest, select, rest', clauses, hafter, hfrom, hwhere, ?_, ?_⟩
    · rw [hitems.1, hselect]
    · rw [hitems.2, hsource]

theorem tight_of_suffix (htext : Text.Tight text) (hsuffix : cs <:+ text)
    (hhead : ∀ c ∈ cs.head?, Text.isBlank c = false) : Text.Tight cs := by
  refine ⟨hhead, fun c hc => htext.last c ?_⟩
  obtain ⟨front, rfl⟩ := hsuffix
  rw [List.getLast?_append, Option.mem_def.mp hc]
  rfl

/-- The kinds and what follows them, behind `FROM`. -/
theorem exists_rest {clauses : Option (List Char × List Char)} {query : List Char}
    (htext : Text.Tight text) (hwhere : Query.splitAt "WHERE".toList text = .ok clauses)
    (hsource : Query.names .source query ((clauses.map (·.1)).getD text) = .ok names) :
    ∃ source rest, text = source ++ rest ∧ Rest rest ∧ Listed names source := by
  rcases splitAt_cases "WHERE".toList text with
    ⟨-, hcase⟩ | ⟨front, kw, condition, hparted, -, hcase⟩
  · cases hcase.symm.trans hwhere
    exact ⟨text, [], (List.append_nil text).symm, .absent, listed_of_names htext hsource⟩
  · cases hcase.symm.trans hwhere
    obtain ⟨gap, hgap, hfront⟩ := hparted.exists_apart
    refine ⟨Text.trimEnd front, gap ++ (kw ++ condition), ?_, .stated hgap hparted.spells,
      listed_of_names (hparted.tight_front htext.head) hsource⟩
    rw [← List.append_assoc, ← hfront, hparted.text_eq]

theorem ne_nil_of_names {clauses : Option (List Char × List Char)} {query : List Char}
    (hwhere : Query.splitAt "WHERE".toList text = .ok clauses)
    (hsource : Query.names .source query ((clauses.map (·.1)).getD text) = .ok names) :
    text ≠ [] := by
  rintro rfl
  cases hwhere
  cases hsource

/-- The lists of a text that is a query. Each names the pieces between its commas, whatever they
are; they are words unless two words stand side by side in the list. -/
theorem parse_lists {query : String} {q : Query} (h : Query.parse query = .ok q) :
    ∃ select source, Laid select source (body query.toList) ∧ Listed q.select.items select ∧
      Listed q.source.items source := by
  obtain ⟨rest, select, rest', clauses, hafter, hfrom, hwhere, hselect, hsource⟩ :=
    exists_of_parse h
  have hbody := tight_body query.toList
  obtain ⟨hhead', htight, gap', kw', gap'', hgap', hkw', hgap'', hrest⟩ :=
    exists_of_splitAt hfrom (ne_nil_of_names hwhere hsource)
  have hne : rest ≠ [] := by
    obtain ⟨c, cs, hcs⟩ := List.exists_cons_of_ne_nil hgap'.ne_nil
    rw [hrest, hcs]
    simp
  obtain ⟨hhead, kw, gap, hkw, hgap, htext⟩ := exists_of_afterSelect hafter hne
  have hsuffix : rest' <:+ body query.toList := by
    refine ⟨kw ++ (gap ++ (select ++ (gap' ++ (kw' ++ gap'')))), ?_⟩
    rw [htext, hrest]
    simp
  obtain ⟨source, tail, hsplit, htail, hlisted⟩ :=
    exists_rest (tight_of_suffix hbody hsuffix hhead') hwhere hsource
  refine ⟨select, source, ?_, listed_of_names (htight hhead) hselect, hlisted⟩
  rw [htext, hrest, hsplit]
  exact .intro hkw hgap hgap' hkw' hgap'' htail

/-- The words before the comma are no single name of the dialect, and the text is a query. -/
theorem parse_lists_uncommaed :
    Query.parse "SELECT name version, id FROM WHERE x = 1" =
        .ok ⟨.names ["name version", "id"], .names ["WHERE x = 1"], none⟩ ∧
      ∃ select source, Laid select source (body "SELECT name version, id FROM WHERE x = 1".toList) ∧
        Listed ["name version", "id"] select ∧ Listed ["WHERE x = 1"] source := by
  have hparse : Query.parse "SELECT name version, id FROM WHERE x = 1" =
      .ok ⟨.names ["name version", "id"], .names ["WHERE x = 1"], none⟩ := by decide +kernel
  exact ⟨hparse, parse_lists hparse⟩

/-- A text with a comma left out is a query all the same. -/
theorem not_parse_words : ¬ ∀ query q, Query.parse query = .ok q →
    (∀ s ∈ q.select.items, IsWord s) ∧ ∀ s ∈ q.source.items, IsWord s := by
  intro hwords
  have hparse : Query.parse "SELECT name version FROM Application" =
      .ok ⟨.names ["name version"], .names ["Application"], none⟩ := by decide +kernel
  have hword := (hwords _ _ hparse).1 "name version" List.mem_cons_self
  have hspace := hword.solid ' ' (by decide)
  exact absurd hspace (by decide)

end Lists

end EntityStore.Query
