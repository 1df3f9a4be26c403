import EntityStore.Proofs.Query.Phrase

/-! Queries written as text are read back: no literal changes what the query is. -/
namespace EntityStore

/-- Names that can be written as a list; a star on its own stands for all. -/
structure Query.IsList (names : List String) : Prop where
  ne_nil : names ≠ []
  ne_star : names ≠ ["*"]
  name : ∀ s ∈ names, Query.IsName s

/-- What a selection is written as. -/
def Selection.items : Selection → List String
  | .all => ["*"]
  | .names items => items

def Selection.Expressible : Selection → Prop
  | .all => True
  | .names items => Query.IsList items

/-- What a source is written as. -/
def Source.items : Source → List String
  | .all => ["*"]
  | .names items => items

def Source.Expressible : Source → Prop
  | .all => True
  | .names items => Query.IsList items

namespace Query

/-- A query that can be written. -/
structure Expressible (q : Query) : Prop where
  select : q.select.Expressible
  source : q.source.Expressible
  condition : ∀ p ∈ q.condition, p.Expressible

/-- What follows the kinds: nothing, or `WHERE` and the text of a condition. -/
inductive EndText : Option Predicate → List Char → Prop
  | absent : EndText none []
  | stated {p : Predicate} {gap kw gap' text : List Char} (hgap : IsGap gap)
      (hkw : Spells "WHERE".toList kw) (hgap' : IsGap gap') (hp : p.Written text) :
      EndText (some p) (gap ++ (kw ++ (gap' ++ text)))

/-- A text of a query: keywords in any letter case between white space, and any semicolons at the
end. -/
inductive Written (q : Query) : List Char → Prop
  | intro {select gap items gap' source gap'' kinds tail semicolons : List Char}
      (hselect : Spells "SELECT".toList select) (hgap : IsGap gap)
      (hitems : ListText q.select.items items) (hgap' : IsGap gap')
      (hsource : Spells "FROM".toList source) (hgap'' : IsGap gap'')
      (hkinds : ListText q.source.items kinds) (htail : EndText q.condition tail)
      (hsemicolons : ∀ c ∈ semicolons, c = ';') :
      Written q (select ++ (gap ++ (items ++ (gap' ++ (source ++ (gap'' ++ (kinds ++ tail)))))) ++
        semicolons)

theorem isName_star : IsName "*" := by decide

end Query

section Items

theorem Selection.isName {s : Selection} (h : s.Expressible) : ∀ i ∈ s.items, Query.IsName i := by
  cases s with
  | all => exact List.forall_mem_singleton.mpr Query.isName_star
  | names => exact h.name

theorem Selection.of_items {s : Selection} (h : s.Expressible) :
    (if s.items = ["*"] then .all else .names s.items) = s := by
  cases s with
  | all => rfl
  | names => exact if_neg h.ne_star

theorem Selection.items_ne_nil {s : Selection} (h : s.Expressible) : s.items ≠ [] := by
  cases s with
  | all => exact nofun
  | names => exact h.ne_nil

theorem Source.isName {s : Source} (h : s.Expressible) : ∀ i ∈ s.items, Query.IsName i := by
  cases s with
  | all => exact List.forall_mem_singleton.mpr Query.isName_star
  | names => exact h.name

theorem Source.of_items {s : Source} (h : s.Expressible) :
    (if s.items = ["*"] then .all else .names s.items) = s := by
  cases s with
  | all => rfl
  | names => exact if_neg h.ne_star

theorem Source.items_ne_nil {s : Source} (h : s.Expressible) : s.items ≠ [] := by
  cases s with
  | all => exact nofun
  | names => exact h.ne_nil

end Items

namespace Query

variable {q : Query} {p : Predicate} {condition : Option Predicate}
  {names : List String} {kinds tail text query : List Char}

theorem statedCondition_of_written (query : List Char) (hp : p.Expressible) (h : p.Written text) :
    statedCondition query text = .ok p := by
  have hempty : text.isEmpty = false := List.isEmpty_eq_false_iff.mpr (h.trimmed hp).ne_nil
  rw [statedCondition, hempty, if_neg Bool.false_ne_true, Predicate.parse_of_written hp h]

theorem EndText.trimmed (h : EndText condition tail)
    (hcondition : ∀ p ∈ condition, p.Expressible) (hkinds : Trimmed kinds) :
    Trimmed (kinds ++ tail) := by
  cases h with
  | absent => rwa [List.append_nil]
  | @stated p gap kw gap' text _ _ _ hp =>
    have hassoc : gap ++ (kw ++ (gap' ++ text)) = (gap ++ (kw ++ gap')) ++ text := by simp
    rw [hassoc]
    exact hkinds.between _ (hp.trimmed (hcondition p rfl))

/-- The kinds and the condition are parted, and the condition is read. -/
theorem EndText.clauses (h : EndText condition tail) (hcondition : ∀ p ∈ condition, p.Expressible)
    (hkinds : ListText names kinds) (hnames : ∀ s ∈ names, IsName s) :
    (condition = none ∧ tail = [] ∧ Query.splitAt "WHERE".toList (kinds ++ tail) = .ok none) ∨
    ∃ p text, condition = some p ∧ (∀ query, statedCondition query text = .ok p) ∧
      Query.splitAt "WHERE".toList (kinds ++ tail) = .ok (some (kinds, text)) := by
  have hmem : "WHERE".toList ∈ listEnds := by decide
  cases h with
  | absent =>
    rw [List.append_nil]
    exact .inl ⟨rfl, rfl, splitAt_of_last hmem hkinds hnames⟩
  | stated hgap hkw hgap' hp =>
    have hp' := hcondition _ rfl
    exact .inr ⟨_, _, rfl, fun query => statedCondition_of_written query hp' hp,
      splitAt_of_list hmem hkinds hnames hgap hkw hgap' (hp.trimmed hp')⟩

/-- The text of a query is read back. -/
theorem parse_of_written {text : String} (hq : q.Expressible) (h : q.Written text.toList) :
    Query.parse text = .ok q := by
  generalize hcs : text.toList = cs at h
  cases h with
  | @intro select gap items gap' source gap'' kinds tail semicolons hselect hgap hitems hgap'
      hsource hgap'' hkinds htail hsemicolons =>
    have hitem := Selection.isName hq.select
    have hkind := Source.isName hq.source
    have htail' := htail.trimmed hq.condition (trimmed_list hkinds hkind)
    have hrest : Trimmed (items ++ (gap' ++ (source ++ (gap'' ++ (kinds ++ tail))))) := by
      have hassoc : gap' ++ (source ++ (gap'' ++ (kinds ++ tail))) =
          (gap' ++ (source ++ gap'')) ++ (kinds ++ tail) := by simp
      rw [hassoc]
      exact (trimmed_list hitems hitem).between _ htail'
    have hwhole := (Token.Spelled.word select).trimmed
      (hselect.wellFormed (by decide) (by decide)) |>.between gap hrest
    have hbody := body_append hwhole hsemicolons
    have hsplit := splitAt_of_list (by decide) hitems hitem hgap' hsource hgap'' htail'
    have hitems' := fun query => names_of_list .select query hitems hitem
    have hkinds' := fun query => names_of_list .source query hkinds hkind
    unfold Query.parse
    simp only [hcs, hbody, afterSelect_append hselect hgap hrest, hsplit, Except.ok_bind, hitems']
    -- What is left are the kinds, with or without a condition behind them.
    obtain ⟨hnone, rfl, hclauses⟩ | ⟨p, text, hsome, hstated, hclauses⟩ :=
      htail.clauses hq.condition hkinds hkind
    · rw [hclauses]
      simp only [Except.ok_bind, Option.map_none, Option.getD_none, List.append_nil, hkinds',
        Except.pure_eq_ok, Selection.of_items hq.select, Source.of_items hq.source, ← hnone]
    · rw [hclauses]
      simp only [Except.ok_bind, Option.map_some, Option.getD_some, hkinds', hstated, Except.map_ok,
        Except.pure_eq_ok, Selection.of_items hq.select, Source.of_items hq.source, ← hsome]

/-- A list can be written with a comma between each two names. -/
theorem exists_listText (hne : names ≠ []) : ∃ text, ListText names text := by
  induction names with
  | nil => exact absurd rfl hne
  | cons s names ih =>
    cases names with
    | nil => exact ⟨_, .last s⟩
    | cons t names =>
      obtain ⟨text, htext⟩ := ih (List.cons_ne_nil t names)
      exact ⟨_, .cons s .nil .nil htext⟩

theorem isGap_space : IsGap [' '] := ⟨nofun, List.forall_mem_singleton.mpr rfl⟩

theorem exists_endText (h : ∀ p ∈ condition, p.Expressible) : ∃ tail, EndText condition tail := by
  cases condition with
  | none => exact ⟨_, .absent⟩
  | some p =>
    obtain ⟨text, htext⟩ := p.exists_written (h p rfl)
    exact ⟨_, .stated isGap_space rfl isGap_space htext⟩

theorem exists_written (hq : q.Expressible) : ∃ text : String, q.Written text.toList := by
  obtain ⟨items, hitems⟩ := exists_listText (Selection.items_ne_nil hq.select)
  obtain ⟨kinds, hkinds⟩ := exists_listText (Source.items_ne_nil hq.source)
  obtain ⟨tail, htail⟩ := exists_endText hq.condition
  have hsemicolons : ∀ c ∈ ([] : List Char), c = ';' := nofun
  obtain ⟨text, htext⟩ : ∃ text, q.Written text :=
    ⟨_, .intro rfl isGap_space hitems isGap_space rfl isGap_space hkinds htail hsemicolons⟩
  exact ⟨String.ofList text, by rwa [String.toList_ofList]⟩

end Query

section Shape

/-- A literal without what stands between its quotes. -/
def Literal.shape : Literal → Literal
  | .quoted _ => .quoted ""
  | .bare s => .bare s

def Predicate.shape : Predicate → Predicate
  | .clause c => .clause { c with literal := c.literal.shape }
  | .join op p q => .join op p.shape q.shape

/-- What is left of a query without what stands between quotes. -/
def Query.shape (q : Query) : Query := { q with condition := q.condition.map (·.shape) }

theorem Literal.expressible_shape (l : Literal) : l.shape.Expressible ↔ l.Expressible := by
  cases l <;> rfl

theorem Predicate.expressible_shape (p : Predicate) : p.shape.Expressible ↔ p.Expressible := by
  induction p with
  | clause c => exact and_congr_right' c.literal.expressible_shape
  | join op p q ihp ihq => exact and_congr ihp ihq

theorem Query.expressible_shape (q : Query) : q.shape.Expressible ↔ q.Expressible := by
  obtain ⟨select, source, condition⟩ := q
  constructor
  · rintro ⟨hselect, hsource, hcondition⟩
    refine ⟨hselect, hsource, fun p hp => p.expressible_shape.mp (hcondition _ ?_)⟩
    exact Option.mem_map_of_mem _ hp
  · rintro ⟨hselect, hsource, hcondition⟩
    refine ⟨hselect, hsource, fun p hp => ?_⟩
    obtain ⟨r, hr, rfl⟩ := Option.map_eq_some_iff.mp hp
    exact r.expressible_shape.mpr (hcondition r hr)

end Shape

/-- A query that can be written has texts, and each of its texts is read back as it. What stands
between quotes has no say in this: every query of the same shape is read back as well. -/
theorem Query.parse_rendered {q : Query} (hq : q.Expressible) :
    (∃ text : String, q.Written text.toList) ∧
    (∀ text : String, q.Written text.toList → Query.parse text = .ok q) ∧
    ∀ (r : Query) (text : String), r.shape = q.shape → r.Written text.toList →
      Query.parse text = .ok r := by
  refine ⟨exists_written hq, fun text => parse_of_written hq, fun r text hshape => ?_⟩
  have hr : r.Expressible := by
    rwa [← r.expressible_shape, hshape, q.expressible_shape]
  exact parse_of_written hr

/-- A condition with literals that try to end it, to close its parenthesis and to add clauses. -/
def Predicate.hostile : Predicate :=
  .join .and (.clause ⟨"title", .eq, .quoted "x') FROM y WHERE z; AND \"q\""⟩)
    (.join .or (.clause ⟨"size", .ne, .bare "12"⟩) (.clause ⟨"note", .ge, .quoted "it's;"⟩))

def Query.hostile : Query := ⟨.names ["name", "rate"], .all, some .hostile⟩

def Query.hostileText : String :=
  "select name ,rate\nFROM\t* Where title=\"x') FROM y WHERE z; AND \"\"q\"\"\"" ++
    " aNd (size<>12 OR note>= 'it''s;');;"

theorem Query.expressible_hostile : hostile.Expressible := by
  have hname : ∀ s ∈ ["name", "rate"], IsName s := by decide
  have hcondition : Predicate.hostile.Expressible := by decide
  refine ⟨⟨by decide, by decide, hname⟩, trivial, fun p hp => ?_⟩
  cases Option.mem_some.mp hp
  exact hcondition

theorem Query.written_hostile : hostile.Written hostileText.toList := by
  have hdouble : Lexer.isQuote '"' = true := rfl
  have hsingle : Lexer.isQuote '\'' = true := rfl
  have hsep {cs rest : List Char}
      (h : (cs.getLast?.all fun c => rest.head?.all fun d => !fuses c d) = true) :
      ∀ c ∈ cs.getLast?, ∀ d ∈ rest.head?, fuses c d = false := by
    simpa [Option.all_eq_true] using h
  -- The three clauses, each in front of what follows it.
  have hnote (place : ℕ) : Renders place _ _ :=
    .cons .space (.word "note".toList) (hsep (by decide)) <|
    .cons .nil (.op ">=".toList) (hsep (by decide)) <|
    .cons .space (.quoted hsingle "it's;".toList) (hsep (by decide)) <|
    .cons .nil .rightParen (hsep (by decide)) <| .nil .nil
  have hsize (place : ℕ) : Renders place _ _ :=
    .cons .space .leftParen (hsep (by decide)) <|
    .cons .nil (.word "size".toList) (hsep (by decide)) <|
    .cons .nil (.op "<>".toList) (hsep (by decide)) <|
    .cons .nil (.word "12".toList) (hsep (by decide)) <|
    .cons .space (.word "OR".toList) (hsep (by decide)) <| hnote _
  have htitle : Renders 0 _ _ :=
    .cons .nil (.word "title".toList) (hsep (by decide)) <|
    .cons .nil (.op "=".toList) (hsep (by decide)) <|
    .cons .nil (.quoted hdouble "x') FROM y WHERE z; AND \"q\"".toList) (hsep (by decide)) <|
    .cons .space (.word "aNd".toList) (hsep (by decide)) <| hsize _
  have hand : Condition.IsKeyword .and "aNd".toList := rfl
  have hor : Condition.IsKeyword .or "OR".toList := rfl
  have hphrased : Predicate.hostile.Phrased _ :=
    .join hand (.clause _) (.join hor (.clause _) (.clause _))
  have hcondition : Predicate.hostile.Written _ :=
    ⟨⟨fun c hc => by cases hc; rfl, fun c hc => by cases hc; rfl⟩, _, htitle, hphrased⟩
  have hitems : ListText hostile.select.items _ := .cons "name" .space .nil (.last "rate")
  have hline : IsGap ['\n'] := ⟨nofun, List.forall_mem_singleton.mpr rfl⟩
  have htab : IsGap ['\t'] := ⟨nofun, List.forall_mem_singleton.mpr rfl⟩
  have hselect : Spells "SELECT".toList "select".toList := by decide
  have hwhere : Spells "WHERE".toList "Where".toList := by decide
  have hsemicolons : ∀ c ∈ [';', ';'], c = ';' := by simp
  have hwritten : hostile.Written _ :=
    .intro hselect isGap_space hitems hline rfl htab (.last "*")
      (.stated isGap_space hwhere isGap_space hcondition) hsemicolons
  refine (?_ : _ = hostileText.toList) ▸ hwritten
  decide +kernel

theorem Query.parse_rendered_hostile :
    hostile.Expressible ∧ hostile.Written hostileText.toList ∧
      Query.parse hostileText = .ok hostile :=
  ⟨expressible_hostile, written_hostile,
    (parse_rendered expressible_hostile).2.1 hostileText written_hostile⟩

end EntityStore
