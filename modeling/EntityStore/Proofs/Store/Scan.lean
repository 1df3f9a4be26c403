import EntityStore.Proofs.Entity.Id
import EntityStore.Proofs.Entity.Origin
import EntityStore.Proofs.Files.Proper
import EntityStore.Proofs.Store.Lookup
import EntityStore.Proofs.Store.Save

/-! Scans of a namespace, and their agreement with looking records up. -/
namespace EntityStore.Store

variable {s : Store} {t : Tree} {k : Kind} {name : String} {e : Entity} {es : List Entity}

/-- A file of a kind's directory that a scan reads: its name has a stem before `.json`, and the stem
does not start with a dot. -/
structure Eligible (s : Store) (t : Tree) (k : Kind) (name : String) : Prop where
  file : t.isFile (s.namespacePath k ++ [name]) = true
  named : ∃ c stem, c ≠ '.' ∧ name.toList = c :: stem ++ ".json".toList

/-- A file of a kind's directory that holds the record of an entity, in the place that the entity's
own kind and id name. -/
structure Holds (s : Store) (t : Tree) (k : Kind) (name : String) (e : Entity) : Prop where
  record : ∃ text r, t.node? (s.namespacePath k ++ [name]) = some (.file (.text text)) ∧
    Json.parseMembers? text = some r ∧ Entity.ofRecord r = .ok e
  kind_eq : e.kind = k
  name_eq : fileName e.id = name

section Reading

theorem recordPath_eq_iff : s.recordPath e.kind e.id = s.namespacePath k ++ [name] ↔
    e.kind = k ∧ fileName e.id = name := by
  unfold recordPath namespacePath
  constructor
  · intro h
    obtain ⟨hdir, hfile⟩ := List.append_inj' h rfl
    have hkind : [e.kind.name] = [k.name] := List.append_cancel_left hdir
    exact ⟨Kind.name_injective (List.singleton_inj.mp hkind), List.singleton_inj.mp hfile⟩
  · rintro ⟨rfl, rfl⟩
    rfl

/-- Reading a record file succeeds on what is held in its own place, and on nothing else. -/
theorem readRecord_eq_ok_iff : s.readRecord t k name = .ok e ↔ s.Holds t k name e := by
  constructor
  · intro h
    unfold readRecord at h
    cases htext : t.readText (s.namespacePath k ++ [name]) with
    | error err => simp [htext] at h
    | ok text =>
      cases hparse : Json.parseMembers? text with
      | none => simp [htext, hparse] at h
      | some r =>
        cases hof : Entity.ofRecord r with
        | error err => simp [htext, hparse, hof] at h
        | ok f =>
          simp only [htext, hparse, hof, Except.mapError_ok, Except.ok_bind] at h
          split_ifs at h with hplace
          cases h
          obtain ⟨hkind, hname⟩ := recordPath_eq_iff.mp hplace
          exact ⟨⟨text, r, Tree.readText_eq_ok_iff.mp htext, hparse, hof⟩, hkind, hname⟩
  · rintro ⟨⟨text, r, hnode, hparse, hof⟩, hkind, hname⟩
    have htext := Tree.readText_eq_ok_iff.mpr hnode
    have hplace : s.recordPath e.kind e.id = s.namespacePath k ++ [name] :=
      recordPath_eq_iff.mpr ⟨hkind, hname⟩
    unfold readRecord
    simp only [htext, hparse, hof, Except.mapError_ok, Except.ok_bind, if_pos hplace,
      Except.pure_eq_ok]

theorem Holds.wellFormed (h : s.Holds t k name e) : e.WellFormed := by
  obtain ⟨text, r, -, -, hof⟩ := h.record
  exact .ofRecord hof

/-- Records hold no instants but those that clocks show. -/
theorem Holds.onClock (h : s.Holds t k name e) : e.OnClock := by
  obtain ⟨text, r, -, -, hof⟩ := h.record
  exact Entity.onClock_of_ofRecord hof

theorem Holds.isFile (h : s.Holds t k name e) :
    t.isFile (s.namespacePath k ++ [name]) = true := by
  obtain ⟨text, r, hnode, -, -⟩ := h.record
  exact Tree.isFile_iff.mpr ⟨_, hnode⟩

end Reading

section Names

theorem isRecordName_iff : isRecordName name = true ↔
    ∃ c stem, c ≠ '.' ∧ name.toList = c :: stem ++ ".json".toList := by
  unfold isRecordName
  rw [Bool.and_eq_true_iff, List.isSuffixOf_iff_suffix]
  constructor
  · rintro ⟨hhead, stem, hstem⟩
    cases stem with
    | nil =>
      rw [← hstem] at hhead
      exact absurd hhead (by decide)
    | cons c stem =>
      refine ⟨c, stem, ?_, hstem.symm⟩
      rintro rfl
      rw [← hstem] at hhead
      simp at hhead
  · rintro ⟨c, stem, hc, hname⟩
    rw [hname]
    refine ⟨?_, List.suffix_append _ _⟩
    simp [hc]

/-- An id makes a name that scans read. -/
theorem named_of_valid {id : String} (h : Id.valid k id = true) :
    ∃ c stem, c ≠ '.' ∧ (fileName id).toList = c :: stem ++ ".json".toList := by
  obtain ⟨c, cs, hid, hc⟩ := Id.head_of_valid h
  refine ⟨c, cs, hc, ?_⟩
  rw [fileName, String.toList_append, hid]

theorem fileName_injective {id id' : String} (h : fileName id = fileName id') : id = id' :=
  (String.append_left_inj ".json").mp h

theorem Holds.eligible (h : s.Holds t k name e) : s.Eligible t k name := by
  have hid : Id.valid e.kind e.id = true := h.wellFormed.id_valid
  have hnamed := named_of_valid hid
  rw [h.name_eq] at hnamed
  exact ⟨h.isFile, hnamed⟩

/-- An id is found exactly where a scan reads a file of its name. -/
theorem contains_iff_eligible {id : String} :
    s.contains t k id = true ↔ Id.valid k id = true ∧ s.Eligible t k (fileName id) := by
  unfold contains
  rw [Bool.and_eq_true_iff]
  constructor
  · rintro ⟨hid, hfile⟩
    exact ⟨hid, hfile, named_of_valid hid⟩
  · rintro ⟨hid, hfile⟩
    exact ⟨hid, hfile.file⟩

end Names

section Scan

theorem mem_recordNames_iff (ht : t.Proper) : name ∈ s.recordNames t k ↔ s.Eligible t k name := by
  unfold recordNames
  constructor
  · intro h
    split_ifs at h with hdir
    · obtain ⟨⟨name', n⟩, hmem, hname⟩ := List.mem_filterMap.mp h
      dsimp only at hname
      split_ifs at hname with hn
      cases hname
      obtain ⟨hne, hrecord⟩ := Bool.and_eq_true_iff.mp hn
      have hnode := ht.mem_children_iff_node?.mp hmem
      refine ⟨Tree.isFile_iff.mpr ?_, isRecordName_iff.mp hrecord⟩
      cases n with
      | directory => exact absurd hne (by decide)
      | file c => exact ⟨c, hnode⟩
    · cases h
  · rintro ⟨hfile, hnamed⟩
    obtain ⟨c, hnode⟩ := Tree.isFile_iff.mp hfile
    have hdir := ht.node?_dropLast hnode
    rw [List.dropLast_concat] at hdir
    rw [if_pos (Tree.isDirectory_iff.mpr hdir)]
    refine List.mem_filterMap.mpr ⟨(name, .file c), ht.mem_children_iff_node?.mpr hnode, ?_⟩
    have hrecord : isRecordName name = true := isRecordName_iff.mpr hnamed
    simp [hrecord]

theorem nodup_recordNames (ht : t.Proper) (s : Store) (k : Kind) : (s.recordNames t k).Nodup := by
  unfold recordNames
  split_ifs
  · have hnames : ((t.children (s.namespacePath k)).map Prod.fst).Nodup := Tree.nodup_children ht
    rw [List.Nodup, List.pairwise_map] at hnames
    rw [List.Nodup, List.pairwise_filterMap]
    refine hnames.imp fun {a b} hab x hx y hy hxy => hab ?_
    dsimp only at hx hy
    split_ifs at hx hy
    cases hx
    cases hy
    exact hxy
  · exact List.nodup_nil

theorem list_eq_ok_iff :
    s.list t k = .ok es ↔ List.Forall₂ (s.Holds t k) (s.recordNames t k) es := by
  unfold list
  rw [Except.mapM_eq_ok_iff]
  simp only [readRecord_eq_ok_iff]

theorem exists_list_iff (ht : t.Proper) :
    (∃ es, s.list t k = .ok es) ↔ ∀ name, s.Eligible t k name → ∃ e, s.Holds t k name e := by
  unfold list
  rw [Except.exists_mapM_eq_ok_iff]
  simp only [readRecord_eq_ok_iff, mem_recordNames_iff ht]

/-- A list holds what the files of its kind hold. -/
theorem mem_list_iff (ht : t.Proper) (h : s.list t k = .ok es) :
    e ∈ es ↔ s.Holds t k (fileName e.id) e := by
  rw [Except.mem_iff_of_mapM h]
  simp only [readRecord_eq_ok_iff, mem_recordNames_iff ht]
  constructor
  · rintro ⟨name, -, hheld⟩
    rwa [hheld.name_eq]
  · intro hheld
    exact ⟨_, hheld.eligible, hheld⟩

theorem nodup_ids_list (ht : t.Proper) (h : s.list t k = .ok es) : (es.map (·.id)).Nodup := by
  have hnames : List.Forall₂ (fun name e => name = fileName e.id) (s.recordNames t k) es :=
    (list_eq_ok_iff.mp h).imp fun name e hheld => hheld.name_eq.symm
  -- The files that are read are those that the ids name, one by one.
  rw [← List.forall₂_map_right_iff (f := fun e : Entity => fileName e.id),
    List.forall₂_eq_eq_eq] at hnames
  have hnodup : (es.map fun e => fileName e.id).Nodup := hnames ▸ nodup_recordNames ht s k
  refine List.Nodup.of_map fileName ?_
  rwa [List.map_map]

end Scan

section Agreement

theorem get_eq_some_iff {id : String} :
    s.get t id (some k) = .ok (some e) ↔ s.Holds t k (fileName id) e := by
  rw [get_of_kind]
  constructor
  · intro h
    split_ifs at h with hc
    · obtain ⟨f, hread, hf⟩ := Except.map_eq_ok_iff.mp h
      cases hf
      exact readRecord_eq_ok_iff.mp hread
    · cases h
  · intro h
    have hid : Id.valid k id = true := by
      have hvalid := h.wellFormed.id_valid
      rwa [h.kind_eq, fileName_injective h.name_eq] at hvalid
    have hc : s.contains t k id = true := contains_iff_eligible.mpr ⟨hid, h.eligible⟩
    rw [if_pos hc, readRecord_eq_ok_iff.mpr h]
    rfl

theorem get_eq_none_iff {id : String} :
    s.get t id (some k) = .ok none ↔ s.contains t k id = false := by
  rw [get_of_kind]
  cases hc : s.contains t k id with
  | true =>
    refine iff_of_false ?_ (by decide)
    intro h
    obtain ⟨f, -, hf⟩ := Except.map_eq_ok_iff.mp h
    cases hf
  | false => simp

/-- How a list of a kind's entities stands to the files of the kind and to looking records up. -/
structure Agreement (s : Store) (t : Tree) (k : Kind) (es : List Entity) : Prop where
  files : ∃ names, names.Nodup ∧ (∀ name, name ∈ names ↔ s.Eligible t k name) ∧
    List.Forall₂ (s.Holds t k) names es
  kind_eq : ∀ e ∈ es, e.kind = k
  nodup : (es.map (·.id)).Nodup
  found : ∀ id e, s.get t id (some k) = .ok (some e) ↔ e ∈ es ∧ e.id = id
  absent : ∀ id, s.get t id (some k) = .ok none ↔ ∀ e ∈ es, e.id ≠ id
  contained : ∀ id, s.contains t k id = true ↔ ∃ e, s.get t id (some k) = .ok (some e)

/-- A list has an entity with each id that is found. -/
theorem exists_get_of_contains {id : String} (ht : t.Proper) (h : s.list t k = .ok es)
    (hc : s.contains t k id = true) : ∃ e, s.get t id (some k) = .ok (some e) := by
  obtain ⟨-, heligible⟩ := contains_iff_eligible.mp hc
  obtain ⟨e, hheld⟩ := (exists_list_iff ht).mp ⟨es, h⟩ _ heligible
  exact ⟨e, get_eq_some_iff.mpr hheld⟩

theorem agreement_of_list (ht : t.Proper) (h : s.list t k = .ok es) : s.Agreement t k es := by
  have hfound : ∀ id e, s.get t id (some k) = .ok (some e) ↔ e ∈ es ∧ e.id = id := by
    intro id e
    rw [get_eq_some_iff, mem_list_iff ht h]
    constructor
    · intro hheld
      have hid : e.id = id := fileName_injective hheld.name_eq
      exact ⟨hid ▸ hheld, hid⟩
    · rintro ⟨hheld, rfl⟩
      exact hheld
  have hcontained : ∀ id,
      s.contains t k id = true ↔ ∃ e, s.get t id (some k) = .ok (some e) := by
    intro id
    refine ⟨exists_get_of_contains ht h, ?_⟩
    rintro ⟨e, he⟩
    by_contra hc
    rw [Bool.not_eq_true, ← get_eq_none_iff, he] at hc
    cases hc
  refine ⟨⟨s.recordNames t k, nodup_recordNames ht s k, fun _ => mem_recordNames_iff ht,
    list_eq_ok_iff.mp h⟩, ?_, nodup_ids_list ht h, hfound, ?_, hcontained⟩
  · intro e he
    exact ((mem_list_iff ht h).mp he).kind_eq
  · intro id
    rw [get_eq_none_iff, ← Bool.not_eq_true, hcontained]
    simp only [hfound, not_exists, not_and]

/-- Scanning a namespace and looking its records up agree. The scan succeeds exactly when each file
that it reads holds the record of its place, and then it lists what is found by id. -/
theorem list_agrees_with_get (s : Store) (t : Tree) (ht : t.Proper) (k : Kind) :
    ((∃ es, s.list t k = .ok es) ↔ ∀ name, s.Eligible t k name → ∃ e, s.Holds t k name e) ∧
      ∀ es, s.list t k = .ok es → s.Agreement t k es :=
  ⟨exists_list_iff ht, fun _ h => agreement_of_list ht h⟩

def ann : Entity :=
  ⟨"6e2f0f2d-bd49-4ed5-b3ab-4e5d8c1a1c05", .persona, [("name", .string "Ann")]⟩

def annText : String :=
  "\x7b\"id\": \"6e2f0f2d-bd49-4ed5-b3ab-4e5d8c1a1c05\", " ++
    "\"kind\": \"Persona\", \"name\": \"Ann\"\x7d"

/-- A tree with a record among what is no record: a name without a stem, a directory with the name
of one, and a copy in it. -/
def littered : Tree := ⟨[(["Persona"], .directory),
  (["Persona", ".json"], .file (.text "?")),
  (["Persona", "6e2f0f2d-bd49-4ed5-b3ab-4e5d8c1a1c05.json"], .file (.text annText)),
  (["Persona", "backup.json"], .directory),
  (["Persona", "backup.json", "6e2f0f2d-bd49-4ed5-b3ab-4e5d8c1a1c05.json"],
    .file (.text annText))]⟩

theorem agreement_littered :
    littered.Proper ∧ list ⟨[], ".", {}⟩ littered .persona = .ok [ann] ∧
      Agreement ⟨[], ".", {}⟩ littered .persona [ann] := by
  have hproper : littered.Proper := by decide +kernel
  have hlist : list ⟨[], ".", {}⟩ littered .persona = .ok [ann] := rfl
  exact ⟨hproper, hlist, (list_agrees_with_get ⟨[], ".", {}⟩ littered hproper .persona).2 _ hlist⟩

end Agreement

end EntityStore.Store
