import EntityStore.Proofs.Store.Scan
import EntityStore.Proofs.Store.Source

/-! Answers to queries: a row for each record that matches, and for nothing else. -/
namespace EntityStore.Store

variable {s : Store} {t : Tree} {k : Kind} {name : String} {e : Entity} {es : List Entity}
  {kinds : List Kind} {condition : Option Predicate}

section Fields

/-- A header names a field of the record. -/
theorem field?_eq_find? (e : Entity) (header : String) :
    field? e header = Assoc.find? header e.toRecord := by
  rw [Entity.find?_toRecord]
  rfl

/-- The cells of an entity's record under some headers. -/
def cells (headers : List String) (e : Entity) : List (Option Json) :=
  headers.map fun h => Assoc.find? h e.toRecord

end Fields

section Places

theorem meets_iff : meets condition e = true ↔ ∀ p ∈ condition, p.holds e = true := by
  cases condition <;> simp [meets]

/-- The places of the files that a scan of some kinds reads. -/
def places (s : Store) (t : Tree) (kinds : List Kind) : List (Kind × String) :=
  kinds.flatMap fun k => (s.recordNames t k).map fun name => (k, name)

theorem mem_places_iff (ht : t.Proper) :
    (k, name) ∈ s.places t kinds ↔ k ∈ kinds ∧ s.Eligible t k name := by
  unfold places
  rw [List.mem_flatMap]
  constructor
  · rintro ⟨j, hj, hmem⟩
    obtain ⟨name', hname', heq⟩ := List.mem_map.mp hmem
    cases heq
    exact ⟨hj, (mem_recordNames_iff ht).mp hname'⟩
  · rintro ⟨hk, hname⟩
    exact ⟨k, hk, List.mem_map.mpr ⟨name, (mem_recordNames_iff ht).mpr hname, rfl⟩⟩

theorem nodup_places (ht : t.Proper) (s : Store) (hkinds : kinds.Nodup) :
    (s.places t kinds).Nodup := by
  unfold places
  rw [List.nodup_flatMap]
  constructor
  · intro k _
    refine (nodup_recordNames ht s k).map ?_
    intro name name' heq
    exact (Prod.mk.inj heq).2
  · refine hkinds.imp fun {j k} hjk p hj hk => hjk ?_
    obtain ⟨_, -, rfl⟩ := List.mem_map.mp hj
    obtain ⟨_, -, heq⟩ := List.mem_map.mp hk
    exact (Prod.mk.inj heq).1.symm

/-- A scan goes through the lists of the kinds in turn. -/
theorem scan_eq_ok_iff : s.scan t kinds = .ok es ↔
    ∃ lists, List.Forall₂ (fun k es => s.list t k = .ok es) kinds lists ∧ lists.flatten = es := by
  unfold scan
  simp only [Except.map_eq_ok_iff, Except.mapM_eq_ok_iff]

/-- What a scan yields is held by a file of one of the kinds. -/
theorem exists_holds_of_mem_scan (h : s.scan t kinds = .ok es) (he : e ∈ es) :
    ∃ k ∈ kinds, ∃ name, s.Holds t k name e := by
  unfold scan at h
  obtain ⟨lists, hlists, rfl⟩ := Except.map_eq_ok_iff.mp h
  obtain ⟨list, hmem, he⟩ := List.mem_flatten.mp he
  obtain ⟨k, hk, hlist⟩ := (Except.mem_iff_of_mapM hlists).mp hmem
  unfold Store.list at hlist
  obtain ⟨name, -, hread⟩ := (Except.mem_iff_of_mapM hlist).mp he
  exact ⟨k, hk, name, readRecord_eq_ok_iff.mp hread⟩

theorem exists_scan_iff (ht : t.Proper) : (∃ es, s.scan t kinds = .ok es) ↔
    ∀ k ∈ kinds, ∀ name, s.Eligible t k name → ∃ e, s.Holds t k name e := by
  have hlists : (∃ es, s.scan t kinds = .ok es) ↔ ∃ lists, kinds.mapM (s.list t) = .ok lists := by
    unfold scan
    cases kinds.mapM (s.list t) <;> simp
  rw [hlists, Except.exists_mapM_eq_ok_iff]
  simp only [exists_list_iff ht]

/-- A scan yields the entity of each file that it reads, in turn. -/
theorem forall₂_places (h : s.scan t kinds = .ok es) :
    List.Forall₂ (fun p e => s.Holds t p.1 p.2 e) (s.places t kinds) es := by
  obtain ⟨lists, hlists, rfl⟩ := scan_eq_ok_iff.mp h
  refine List.rel_flatten ?_
  rw [List.forall₂_map_left_iff]
  refine hlists.imp fun k es hes => ?_
  rw [List.forall₂_map_left_iff]
  exact list_eq_ok_iff.mp hes

/-- Whether the file of a place holds an entity that satisfies a condition. -/
def matching (s : Store) (t : Tree) (condition : Option Predicate) (p : Kind × String) : Bool :=
  (s.readRecord t p.1 p.2).toOption.any (meets condition)

theorem matching_of_holds {p : Kind × String} (h : s.Holds t p.1 p.2 e) :
    s.matching t condition p = meets condition e := by
  unfold matching
  rw [readRecord_eq_ok_iff.mpr h]
  rfl

theorem matching_iff {p : Kind × String} : s.matching t condition p = true ↔
    ∃ e, s.Holds t p.1 p.2 e ∧ ∀ c ∈ condition, c.holds e = true := by
  simp only [← meets_iff]
  constructor
  · intro h
    cases hread : s.readRecord t p.1 p.2 with
    | error err =>
      unfold matching at h
      rw [hread] at h
      cases h
    | ok e =>
      have hheld := readRecord_eq_ok_iff.mp hread
      exact ⟨e, hheld, matching_of_holds hheld ▸ h⟩
  · rintro ⟨e, hheld, he⟩
    rw [matching_of_holds hheld, he]

end Places

section Answers

theorem execute_eq_ok_iff {q : EntityStore.Query} {table : Table} :
    s.execute t q = .ok table ↔ q.source.Known ∧ ∃ es, s.scan t (s.scanOrder t q.source) = .ok es ∧
      table = ⟨headers (s.scanOrder t q.source) q.select,
        (es.filter (meets q.condition)).map
          (cells (headers (s.scanOrder t q.source) q.select))⟩ := by
  have hcells : ∀ hs, (fun e => hs.map (field? e)) = cells hs := by
    intro hs
    funext e
    exact List.map_congr_left fun h _ => field?_eq_find? e h
  unfold execute
  simp only [Except.bind_eq_ok_iff, Except.mapError_eq_ok_iff, resolveSource_eq_ok_iff,
    Except.pure_eq_ok, Except.ok.injEq, hcells]
  constructor
  · rintro ⟨kinds, ⟨hknown, rfl⟩, es, hscan, rfl⟩
    exact ⟨hknown, es, hscan, rfl⟩
  · rintro ⟨hknown, es, hscan, rfl⟩
    exact ⟨_, ⟨hknown, rfl⟩, es, hscan, rfl⟩

theorem exists_execute_iff {q : EntityStore.Query} (ht : t.Proper) :
    (∃ table, s.execute t q = .ok table) ↔ q.source.Known ∧
      ∀ k, s.InScope t q.source k → ∀ name, s.Eligible t k name → ∃ e, s.Holds t k name e := by
  have hscan : (∃ es, s.scan t (s.scanOrder t q.source) = .ok es) ↔
      ∀ k, s.InScope t q.source k → ∀ name, s.Eligible t k name → ∃ e, s.Holds t k name e := by
    rw [exists_scan_iff ht]
    simp only [mem_scanOrder_iff]
  rw [← hscan]
  constructor
  · rintro ⟨table, htable⟩
    obtain ⟨hknown, es, hes, -⟩ := execute_eq_ok_iff.mp htable
    exact ⟨hknown, es, hes⟩
  · rintro ⟨hknown, es, hes⟩
    exact ⟨_, execute_eq_ok_iff.mpr ⟨hknown, es, hes, rfl⟩⟩

theorem query_of_parse {text : String} {q : EntityStore.Query} (h : Query.parse text = .ok q) :
    s.query t text = s.execute t q := by
  unfold query
  rw [h]
  rfl

/-- The rows of a table are the records that a query asks for, each at one place: those of the
kinds in scope that satisfy the condition. A row has a cell for each header, with the value that the
record has at it. -/
structure Answers (s : Store) (t : Tree) (q : EntityStore.Query) (table : Table) : Prop where
  headers : ∀ names, q.select = .names names → table.headers = names
  rows : ∃ places : List (Kind × String), places.Nodup ∧
    (∀ k name, (k, name) ∈ places ↔
      s.InScope t q.source k ∧ ∃ e, s.Holds t k name e ∧
        ∀ p ∈ q.condition, p.holds e = true) ∧
    List.Forall₂ (fun p row => ∃ e, s.Holds t p.1 p.2 e ∧
      row = table.headers.map fun h => Assoc.find? h e.toRecord) places table.rows

theorem answers_of_execute {q : EntityStore.Query} {table : Table} (ht : t.Proper)
    (h : s.execute t q = .ok table) : s.Answers t q table := by
  obtain ⟨-, es, hscan, rfl⟩ := execute_eq_ok_iff.mp h
  refine ⟨?_, (s.places t (s.scanOrder t q.source)).filter (s.matching t q.condition), ?_, ?_, ?_⟩
  · intro names hnames
    rw [hnames]
    rfl
  · exact (nodup_places ht s (nodup_scanOrder s t q.source)).filter _
  · intro k name
    rw [List.mem_filter, mem_places_iff ht, mem_scanOrder_iff, matching_iff]
    constructor
    · rintro ⟨⟨hk, -⟩, hheld⟩
      exact ⟨hk, hheld⟩
    · rintro ⟨hk, e, hheld, he⟩
      exact ⟨⟨hk, hheld.eligible⟩, e, hheld, he⟩
  · rw [List.forall₂_map_right_iff]
    -- Places and entities are filtered side by side: a place is kept exactly when its entity is.
    have hfilter := List.rel_filter (p := s.matching t q.condition) (q := meets q.condition)
      (fun _ _ hheld => Bool.eq_iff_iff.mp (matching_of_holds hheld)) (forall₂_places hscan)
    exact hfilter.imp fun p e hheld => ⟨e, hheld, rfl⟩

/-- A query fails exactly when a name in it is not that of a kind, or when a file that it reads does
not hold the record of its place. Else its table answers it. -/
theorem query_answers (s : Store) (t : Tree) (ht : t.Proper) (text : String) (q : EntityStore.Query)
    (hq : Query.parse text = .ok q) :
    ((∃ err, s.query t text = .error err) ↔ ¬ q.source.Known ∨ ∃ k, s.InScope t q.source k ∧
        ∃ name, s.Eligible t k name ∧ ∀ e, ¬ s.Holds t k name e) ∧
      ∀ table, s.query t text = .ok table → s.Answers t q table := by
  rw [query_of_parse hq]
  refine ⟨?_, fun table h => answers_of_execute ht h⟩
  rw [Except.exists_error_iff, exists_execute_iff ht, not_and_or]
  simp only [not_forall, not_exists, exists_prop]

/-- A query that names a kind twice and asks for a field that no record has. -/
def annQuery : String :=
  "SELECT name, missing, id FROM Persona, Data, Persona WHERE name = 'Ann'"

def annTable : Table :=
  ⟨["name", "missing", "id"], [[some (.str "Ann"), none, some (.str ann.id)]]⟩

theorem query_answers_littered : littered.Proper ∧ ∃ q, Query.parse annQuery = .ok q ∧
    query ⟨[], ".", {}⟩ littered annQuery = .ok annTable ∧
    Answers ⟨[], ".", {}⟩ littered q annTable := by
  have hproper : littered.Proper := by decide +kernel
  have hparse : Query.parse annQuery = .ok ⟨.names ["name", "missing", "id"],
      .names ["Persona", "Data", "Persona"], some (.clause ⟨"name", .eq, .quoted "Ann"⟩)⟩ := rfl
  have hquery : query ⟨[], ".", {}⟩ littered annQuery = .ok annTable := by
    rw [query_of_parse hparse]
    rfl
  exact ⟨hproper, _, hparse, hquery,
    (query_answers ⟨[], ".", {}⟩ littered hproper annQuery _ hparse).2 annTable hquery⟩

end Answers

end EntityStore.Store
