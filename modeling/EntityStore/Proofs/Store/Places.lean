import EntityStore.Proofs.Entity.Uuid
import EntityStore.Proofs.Files.Path
import EntityStore.Proofs.Store.Scan

/-! Where ids lead: to records in the directories of namespaces, and nowhere else. -/
namespace EntityStore.Store

variable {s : Store} {t t' : Tree} {j k : Kind} {id id' name : String} {kind : Option Kind}

section Names

theorem plain_kindName (k : Kind) : Path.Plain k.name := by
  refine ⟨?_, ?_, ?_, ?_, ?_⟩ <;> cases k <;> decide

theorem notMem_fileName (h : Id.IsId k id) {c : Char} (hc : c ∉ "relationship--.json".toList)
    (hdigit : Id.isHexDigit c = false) : c ∉ (fileName id).toList := by
  obtain ⟨u, -, hid⟩ := h
  intro hmem
  rw [fileName, String.toList_append, hid] at hmem
  rcases List.mem_append.mp hmem with hmem | hmem
  · rcases List.mem_append.mp hmem with hmem | hmem
    · cases hp : k.idPrefix? with
      | none =>
        rw [hp] at hmem
        cases hmem
      | some p =>
        rw [hp, Id.idPrefix?_eq_some hp] at hmem
        exact hc (List.mem_append_left ".json".toList hmem)
    · rcases Uuid.mem_text hmem with rfl | hmem
      · exact hc (by decide)
      · rw [hdigit] at hmem
        cases hmem
  · exact hc (List.mem_append_right "relationship--".toList hmem)

theorem size_fileName (h : Id.IsId k id) : (fileName id).utf8ByteSize ≤ 55 := by
  obtain ⟨u, -, hid⟩ := h
  have hlabel : Text.byteSize (k.idPrefix?.getD "").toList ≤ 14 := by
    cases hp : k.idPrefix? with
    | none => decide
    | some p =>
      rw [Id.idPrefix?_eq_some hp]
      decide
  have hjson : Text.byteSize ".json".toList = 5 := rfl
  rw [← Text.byteSize_toList, fileName, String.toList_append, hid, Text.byteSize_append,
    Text.byteSize_append, u.byteSize_text, hjson]
  omega

/-- An id makes the name of a file. -/
theorem plain_fileName (h : Id.IsId k id) : Path.Plain (fileName id) := by
  obtain ⟨c, stem, hc, hname⟩ := named_of_valid (Id.valid_iff_isId.mpr h)
  have hne : ∀ name : String, name.toList.head? = some '.' ∨ name.toList = [] →
      fileName id ≠ name := by
    rintro name hhead rfl
    rw [hname] at hhead
    simp [hc] at hhead
  refine ⟨?_, hne ".." (by decide), notMem_fileName h (by decide) (by decide),
    notMem_fileName h (by decide) (by decide), (size_fileName h).trans (by decide)⟩
  have hempty := hne "" (.inr rfl)
  have hdot := hne "." (.inl rfl)
  simp [Path.isName, hempty, hdot]

end Names

/-- The record of an id has its place in the directory of its kind, in the tree and by its path
text, and it has a name that scans of the directory take for a record's. -/
structure Placed (s : Store) (k : Kind) (id : String) : Prop where
  name : Path.Plain (fileName id)
  isRecordName : isRecordName (fileName id) = true
  path : s.recordPath k id = s.namespacePath k ++ [fileName id]
  resolves : ∀ t base, existing t base s.rootText s.options = .ok s →
    t.isDirectory (s.namespacePath k) = true →
    (s.fileText k (fileName id)).utf8ByteSize ≤ Tree.maxPath →
    t.resolve base (s.fileText k (fileName id)) = .ok (s.recordPath k id)
  listed : ∀ t : Tree, t.Proper →
    (fileName id ∈ s.recordNames t k ↔ t.isFile (s.recordPath k id) = true)

theorem placed_of_isId (s : Store) (h : Id.IsId k id) : s.Placed k id := by
  have hplain := plain_fileName h
  have hvalid := Id.valid_iff_isId.mpr h
  refine ⟨hplain, isRecordName_iff.mpr (named_of_valid hvalid), rfl, ?_, ?_⟩
  · intro t base hopen hdir hsize
    unfold existing at hopen
    obtain ⟨root, hroot, hopen⟩ := Except.bind_eq_ok_iff.mp hopen
    obtain ⟨_, hrootdir, hopen⟩ := Except.bind_eq_ok_iff.mp hopen
    have hsame : root = s.root := congrArg Store.root (Except.ok.inj hopen)
    rw [hsame] at hroot hrootdir
    have hkind := (Path.size_le_size_join hplain _).trans hsize
    have hnamespace := Tree.resolve_join hroot
      (Tree.isDirectory_iff.mpr (Tree.checkDirectory_eq_ok_iff.mp hrootdir)) (plain_kindName k)
      hkind
    exact Tree.resolve_join hnamespace hdir hplain hsize
  · intro t ht
    rw [mem_recordNames_iff ht]
    exact ⟨Eligible.file, fun hfile => ⟨hfile, named_of_valid hvalid⟩⟩

section Distinct

theorem exists_components_fileText (s : Store) : ∃ root, ∀ k name, Path.Plain name →
    Path.components (s.fileText k name) = root ++ [k.name] ++ [name] := by
  obtain ⟨root, -, hroot⟩ := Path.exists_components_join s.rootText
  refine ⟨root, fun k name hname => ?_⟩
  have hkind := hroot k.name (plain_kindName k)
  obtain ⟨cs, hcs, hfile⟩ := Path.exists_components_join (s.namespaceText k)
  have hsame : cs = root ++ [k.name] := by
    rcases hcs with hcs | hcs
    · exact hcs.symm.trans hkind
    · -- The text of a namespace does not end in a slash.
      have hlast := List.append_inj_right' (hcs.symm.trans hkind) rfl
      exact absurd (List.singleton_inj.mp hlast).symm (by cases k <;> decide)
  rw [fileText, hfile name hname, hsame]

/-- Ids whose files have the same path text are one id of one kind. -/
theorem fileText_injective (h : Id.IsId j id) (h' : Id.IsId k id')
    (heq : s.fileText j (fileName id) = s.fileText k (fileName id')) : j = k ∧ id = id' := by
  obtain ⟨root, hroot⟩ := exists_components_fileText s
  have hcomponents := congrArg Path.components heq
  rw [hroot j _ (plain_fileName h), hroot k _ (plain_fileName h')] at hcomponents
  obtain ⟨hdir, hfile⟩ := List.append_inj' hcomponents rfl
  have hkind := List.append_cancel_left hdir
  exact ⟨Kind.name_injective (List.singleton_inj.mp hkind),
    fileName_injective (List.singleton_inj.mp hfile)⟩

/-- No text is an id of relationships and of another kind. -/
theorem not_isId_of_relationship (h : Id.IsId .relationship id) (hk : k ≠ .relationship) :
    ¬ Id.IsId k id := by
  rintro ⟨u, -, hid⟩
  obtain ⟨v, -, hid'⟩ := h
  have hlabel : k.idPrefix? = none := by
    unfold Kind.idPrefix?
    split
    next => exact absurd rfl hk
    next => rfl
  have hmem : 'r' ∈ u.text := by
    have hsame : u.text = "relationship--".toList ++ v.text := by
      rw [hlabel] at hid
      exact hid.symm.trans hid'
    rw [hsame]
    exact List.mem_append_left _ (by decide)
  rcases Uuid.mem_text hmem with h | h <;> exact absurd h (by decide)

end Distinct

/-- Trees with the same namespaces, and with the same at the places to which ids lead. -/
structure SameRecords (s : Store) (t t' : Tree) : Prop where
  namespaces : ∀ k, t'.isDirectory (s.namespacePath k) = t.isDirectory (s.namespacePath k)
  records : ∀ k id, Id.IsId k id → t'.node? (s.recordPath k id) = t.node? (s.recordPath k id)

namespace SameRecords

theorem contains (h : s.SameRecords t t') (k : Kind) (id : String) :
    s.contains t' k id = s.contains t k id := by
  by_cases hid : Id.IsId k id
  · exact contains_congr (h.records k id hid)
  · have hvalid : Id.valid k id = false := by
      rw [← Bool.not_eq_true]
      exact mt Id.valid_iff_isId.mp hid
    simp [Store.contains, hvalid]

theorem scope (h : s.SameRecords t t') (kind : Option Kind) : s.scope t' kind = s.scope t kind := by
  cases kind with
  | some k => rfl
  | none => simp only [Store.scope, Store.namespaces, h.namespaces]

theorem readRecord (h : s.SameRecords t t') (hc : s.contains t k id = true) :
    s.readRecord t' k (fileName id) = s.readRecord t k (fileName id) := by
  have hvalid := (Bool.and_eq_true_iff.mp hc).1
  exact readRecord_congr (h.records k id (Id.valid_iff_isId.mp hvalid)) hc

theorem locate? (h : s.SameRecords t t') (kinds : List Kind) (id : String) :
    s.locate? t' kinds id = s.locate? t kinds id := by
  simp only [Store.locate?, h.contains]

theorem get (h : s.SameRecords t t') (id : String) (kind : Option Kind) :
    s.get t' id kind = s.get t id kind := by
  unfold Store.get
  rw [h.scope, h.locate?]
  cases hk : s.locate? t (s.scope t kind) id with
  | none => rfl
  | some k =>
    have hc : s.contains t k id = true := List.find?_some (p := fun k => s.contains t k id) hk
    simp only [h.readRecord hc]

theorem lookup (h : s.SameRecords t t') (kinds : List Kind) (ids : List String) :
    s.lookup t' kinds ids = s.lookup t kinds ids := by
  induction ids with
  | nil => rfl
  | cons id ids ih =>
    unfold Store.lookup
    rw [h.locate?, ih]
    cases hk : s.locate? t kinds id with
    | none => rfl
    | some k =>
      have hc : s.contains t k id = true := List.find?_some (p := fun k => s.contains t k id) hk
      simp only [h.readRecord hc]

theorem getMany (h : s.SameRecords t t') (ids : List String) (kind : Option Kind) :
    s.getMany t' ids kind = s.getMany t ids kind := by
  unfold Store.getMany
  rw [h.scope, h.lookup]

end SameRecords

/-- Ids are hyphenated UUIDs of version 4, behind what their kind asks for, whichever reader takes
the UUIDs apart. Each leads to a record of its own in the directory of its kind, and whatever text
is looked up, nothing but these records is looked at. -/
theorem ids_stay_in_namespaces (s : Store) :
    (∀ k id, (Id.validate k id = .ok () ↔ Id.IsId k id) ∧
      (¬ Id.IsId k id → Id.validate k id = .error (.invalidId id k.idPrefix?)) ∧
      ∀ parse?, Id.ReadsUuids parse? → Id.validateWith parse? k id = Id.validate k id) ∧
    (∀ k id, Id.IsId k id → s.Placed k id) ∧
    (∀ j k id id', Id.IsId j id → Id.IsId k id' →
      s.recordPath j id = s.recordPath k id' ∨
        s.fileText j (fileName id) = s.fileText k (fileName id') → j = k ∧ id = id') ∧
    (∀ k id, Id.IsId .relationship id → k ≠ .relationship → ¬ Id.IsId k id) ∧
    ∀ t t', s.SameRecords t t' → (∀ k id, s.contains t' k id = s.contains t k id) ∧
      (∀ id kind, s.get t' id kind = s.get t id kind) ∧
      ∀ ids kind, s.getMany t' ids kind = s.getMany t ids kind := by
  refine ⟨fun k id => ⟨?_, Id.validate_of_not_isId, fun _ h => h.validateWith_eq k id⟩,
    fun k id h => placed_of_isId s h, ?_, fun k id h hk => not_isId_of_relationship h hk, ?_⟩
  · rw [Id.validate_eq_ok_iff, Id.valid_iff_isId]
  · rintro j k id id' h h' (heq | heq)
    · exact recordPath_injective heq
    · exact fileText_injective h h' heq
  · intro t t' h
    exact ⟨h.contains, h.get, h.getMany⟩

/-- The id of a relationship, in letters of both cases. -/
def linkId : String := "relationship--9293510B-534b-4dd0-b7c5-78d92e279400"

theorem isId_linkId : Id.IsId .relationship linkId := Id.valid_iff_isId.mp (by decide +kernel)

/-- A file beside the namespaces changes no record. -/
theorem sameRecords_beside (t : Tree) (c : Content) :
    SameRecords ⟨[], ".", {}⟩ t (t.put ["notes.json"] (.file c)) := by
  refine ⟨fun k => ?_, fun k id _ => ?_⟩
  · have hne : [k.name] ≠ ["notes.json"] := by cases k <;> decide
    rw [Tree.isDirectory, Tree.isDirectory, Tree.node?_put t (by simp)]
    exact congrArg (· == some Node.directory) (if_neg hne)
  · rw [Tree.node?_put t (by simp)]
    exact if_neg (by simp [recordPath, namespacePath])

/-- The form without hyphens is read as a UUID, and refused as an id. -/
theorem ids_stay_in_namespaces_linkId :
    Id.ReadsUuids Id.anyForm? ∧
      Id.validateWith Id.anyForm? .relationship linkId = .ok () ∧
      (Id.anyForm? "9293510b534b4dd0b7c578d92e279400".toList).isSome = true ∧
      Id.validateWith Id.anyForm? .device "9293510b534b4dd0b7c578d92e279400" =
        .error (.invalidId "9293510b534b4dd0b7c578d92e279400" none) ∧
      Placed ⟨[], ".", {}⟩ .relationship linkId ∧ ¬ Id.IsId .device linkId ∧
      get ⟨[], ".", {}⟩ (littered.put ["notes.json"] (.file (.text annText))) "../notes" none =
        get ⟨[], ".", {}⟩ littered "../notes" none := by
  obtain ⟨hvalidate, hplaced, -, hdistinct, hlocal⟩ := ids_stay_in_namespaces ⟨[], ".", {}⟩
  obtain ⟨hlink, -, hlinkwith⟩ := hvalidate .relationship linkId
  obtain ⟨-, hrefused, hplainwith⟩ := hvalidate .device "9293510b534b4dd0b7c578d92e279400"
  have hreads := Id.readsUuids_anyForm?
  have hnot : ¬ Id.IsId .device "9293510b534b4dd0b7c578d92e279400" := by
    rw [← Id.valid_iff_isId]
    decide +kernel
  have hbeside := hlocal littered _ (sameRecords_beside littered (.text annText))
  exact ⟨hreads, (hlinkwith _ hreads).trans (hlink.mpr isId_linkId), by decide +kernel,
    (hplainwith _ hreads).trans (hrefused hnot), hplaced _ _ isId_linkId,
    hdistinct .device _ isId_linkId (by decide), hbeside.2.1 _ _⟩

end EntityStore.Store
