import EntityStore.CommandLine.Run
import EntityStore.Proofs.Files.Opening
import EntityStore.Proofs.Store.Save

/-! Saving from the command line: all records of all files are saved together, or none is. -/
namespace EntityStore.CommandLine

variable {s : Surroundings} {t u v : Tree} {file : String} {files : List String}
  {es : List Entity} {overwrite : Bool} {store : Store}

section Inputs

/-- The records of a JSON value: it is a record itself, or an array of records. -/
def HasRecords (j : Json) (rs : List Record) : Prop :=
  (∃ r, j = .obj r ∧ rs = [r]) ∨ j = .arr (rs.map .obj)

/-- The entities of a file: its text is the JSON of records, each the record of an entity. -/
def HoldsEntities (s : Surroundings) (t : Tree) (file : String) (es : List Entity) : Prop :=
  ∃ p text j rs, t.resolve s.base file = .ok p ∧ t.node? p = some (.file (.text text)) ∧
    Json.parse? text = some j ∧ HasRecords j rs ∧
      List.Forall₂ (fun r e => Entity.ofRecord r = .ok e) rs es

/-- The entities of files, in the order of the files. -/
def Inputs (s : Surroundings) (t : Tree) (files : List String) (es : List Entity) : Prop :=
  ∃ batches, List.Forall₂ (HoldsEntities s t) files batches ∧ batches.flatten = es

theorem recordsOf_eq_ok_iff {j : Json} {rs : List Record} :
    recordsOf file j = .ok rs ↔ HasRecords j rs := by
  unfold recordsOf HasRecords
  cases j with
  | obj r => simp [eq_comm]
  | arr items =>
    simp only [Except.mapM_eq_ok_iff, reduceCtorEq, false_and, exists_false, false_or,
      Json.arr.injEq]
    rw [← List.forall₂_eq_eq_eq, List.forall₂_map_right_iff]
    refine ⟨fun h => h.imp fun x r hx => ?_, fun h => h.imp fun x r hx => ?_⟩
    · cases x with
      | obj r' => exact congrArg Json.obj (Except.ok.inj hx)
      | _ => cases hx
    · rw [hx]
  | _ => simp

theorem readEntities_eq_ok_iff : readEntities s t file = .ok es ↔ HoldsEntities s t file es := by
  have hread {text : String} : (t.resolve s.base file).bind t.readText = .ok text ↔
      ∃ p, t.resolve s.base file = .ok p ∧ t.node? p = some (.file (.text text)) := by
    simp only [← Tree.readText_eq_ok_iff]
    exact Except.bind_eq_ok_iff
  unfold readEntities HoldsEntities
  simp only [Except.bind_eq_ok_iff, Except.mapError_eq_ok_iff, hread]
  constructor
  · rintro ⟨text, ⟨p, hp, htext⟩, h⟩
    split at h
    next => cases h
    next j hj =>
      obtain ⟨rs, hrs, h⟩ := Except.bind_eq_ok_iff.mp h
      simp only [Except.mapM_eq_ok_iff, Except.mapError_eq_ok_iff] at h
      exact ⟨p, text, j, rs, hp, htext, hj, recordsOf_eq_ok_iff.mp hrs, h⟩
  · rintro ⟨p, text, j, rs, hp, htext, hj, hrs, h⟩
    refine ⟨text, ⟨p, hp, htext⟩, ?_⟩
    simp only [hj, recordsOf_eq_ok_iff.mpr hrs, Except.ok_bind, Except.mapM_eq_ok_iff,
      Except.mapError_eq_ok_iff]
    exact h

theorem inputs_iff : Inputs s t files es ↔
    ∃ batches, files.mapM (readEntities s t) = .ok batches ∧ batches.flatten = es := by
  unfold Inputs
  simp only [Except.mapM_eq_ok_iff, readEntities_eq_ok_iff]

end Inputs

section Run

/-- How a saved entity is reported. -/
def receipt (e : Entity) : Json := .ofMembers [("id", .str e.id), ("kind", .str e.kind.name)]

/-- The store has opened, the files have their entities, and all of them are saved together. -/
structure Saves (s : Surroundings) (u : Tree) (opened : Except IoError Store) (files : List String)
    (overwrite : Bool) (store : Store) (es : List Entity) : Prop where
  opened : opened = .ok store
  inputs : Inputs s u files es
  saved : (store.saveAll u es overwrite).2 = .ok ()

/-- Opening the store of a path has neither changed nor removed anything. What it has made are
directories to which the path leads on its way, and none below the root unless it leads up again. -/
structure OnlyOpened (path : String) (t u : Tree) (opened : Except IoError Store) : Prop where
  files : ∀ p c, u.node? p = some (.file c) ↔ t.node? p = some (.file c)
  directories : ∀ p, t.node? p = some .directory → u.node? p = some .directory
  made : ∀ p, t.node? p = none → u.node? p ≠ none →
    ∃ ms, ms <+: Path.names path ∧ u.walk (Tree.origin [] path) ms = .ok p
  below : ∀ store, opened = .ok store → ".." ∉ Path.names path → ∀ p ≠ [],
    u.node? (store.root ++ p) = t.node? (store.root ++ p)

theorem onlyOpened_openAt {path : String} {options : StoreOptions} {opened : Except IoError Store}
    (h : Store.openAt t [] path options = (u, opened)) : OnlyOpened path t u opened := by
  have halong := Store.madeAlong_openAt t [] path options
  rw [h] at halong
  refine ⟨fun p c => ⟨fun hu => ?_, halong.kept p _⟩, fun p => halong.kept p _,
    fun p ht hu => ?_, ?_⟩
  · cases ht : t.node? p with
    | none =>
      obtain ⟨hdir, -⟩ := halong.made p _ ht hu
      cases hdir
    | some n =>
      rw [halong.kept p n ht] at hu
      exact hu
  · obtain ⟨n, hn⟩ := Option.ne_none_iff_exists'.mp hu
    exact (halong.made p n ht hn).2
  · rintro store rfl hup p hp
    exact Store.node?_below_of_openAt h hup hp

/-- The file system does not stop the saving of the files' entities. -/
def Unhindered (s : Surroundings) (u : Tree) (opened : Except IoError Store) (files : List String)
    (overwrite : Bool) : Prop :=
  ∀ store es err, opened = .ok store → Inputs s u files es →
    (store.saveAll u es overwrite).2 ≠ .error (.io err)

/-- A batch that is refused leaves the tree as it was. -/
theorem tree_of_refused {why : Error} (h : (store.saveAll u es overwrite).2 = .error why)
    (hio : ∀ err, (store.saveAll u es overwrite).2 ≠ .error (.io err)) :
    (store.saveAll u es overwrite).1 = u := by
  rw [Store.saveAll_eq] at h hio ⊢
  cases hfirst : store.firstObjection? u overwrite [] es with
  | some err => rfl
  | none =>
    rw [hfirst] at h hio
    rcases Store.writeAll_eq_ok_or_io store u (es.map store.pending) with hok | ⟨err, herr⟩
    · rw [hok] at h
      cases h
    · exact absurd herr (hio err)

theorem run_save {arguments : List String} {i : Invocation} {settings : Settings}
    (hparse : parse? arguments = some i) (hcommand : i.command = .save files overwrite)
    (hload : Settings.load s t i.settingsFile = .ok settings) :
    run s t arguments =
      (save s { settings with path := i.storePath.getD settings.path } t files
        overwrite).outcome := by
  unfold run invoke
  simp only [hparse, hload, hcommand, execute]

variable {settings : Settings} {opened : Except IoError Store}

theorem withStore_of_ok (act : Store → Tree → Effect)
    (hopen : Store.openAt t [] (settings.storePath s.workingDirectory) settings.storeOptions =
      (u, .ok store)) : withStore s settings t act = act store u := by
  unfold withStore
  dsimp only
  rw [hopen]

theorem withStore_of_error {err : IoError} (act : Store → Tree → Effect)
    (hopen : Store.openAt t [] (settings.storePath s.workingDirectory) settings.storeOptions =
      (u, .error err)) :
    withStore s settings t act = .fail u
      (("Failed to open store at " ++ settings.storePath s.workingDirectory)
        :: (Error.io err).chain) := by
  unfold withStore
  dsimp only
  rw [hopen]

/-- What `save` does: it saves the entities of all files, or it fails where nothing is saved. -/
theorem save_cases
    (hopen : Store.openAt t [] (settings.storePath s.workingDirectory) settings.storeOptions =
      (u, opened)) :
    (∃ store es, Saves s u opened files overwrite store es ∧
      save s settings t files overwrite =
        .print (store.saveAll u es overwrite).1 (.arr (es.map receipt))) ∨
    (¬ ∃ store es, Saves s u opened files overwrite store es) ∧
      ∃ v why, save s settings t files overwrite = .fail v why ∧
        (Unhindered s u opened files overwrite → v = u) := by
  cases opened with
  | error err =>
    rw [save, withStore_of_error _ hopen]
    refine .inr ⟨?_, u, _, rfl, fun _ => rfl⟩
    rintro ⟨store, es, hsaves⟩
    cases hsaves.opened
  | ok store =>
    rw [save, withStore_of_ok _ hopen]
    cases hread : files.mapM (readEntities s u) with
    | error why =>
      refine .inr ⟨?_, u, why, rfl, fun _ => rfl⟩
      rintro ⟨store, es, hsaves⟩
      obtain ⟨batches, hbatches, -⟩ := inputs_iff.mp hsaves.inputs
      rw [hread] at hbatches
      cases hbatches
    | ok batches =>
      have hinputs : Inputs s u files batches.flatten := inputs_iff.mpr ⟨batches, hread, rfl⟩
      dsimp only
      cases hsave : store.saveAll u batches.flatten overwrite with
      | mk v result =>
        cases result with
        | ok =>
          refine .inl ⟨store, batches.flatten, ⟨rfl, hinputs, ?_⟩, ?_⟩
          · rw [hsave]
          · rw [hsave]
            rfl
        | error why =>
          refine .inr ⟨?_, v, _, rfl, fun hunhindered => ?_⟩
          · rintro ⟨store', es, hsaves⟩
            cases hsaves.opened
            obtain ⟨batches', hbatches, rfl⟩ := inputs_iff.mp hsaves.inputs
            cases hread.symm.trans hbatches
            have hsaved := hsaves.saved
            rw [hsave] at hsaved
            cases hsaved
          · have hio (err : IoError) := hunhindered store batches.flatten err rfl hinputs
            have hkept := tree_of_refused (congrArg Prod.snd hsave) hio
            rwa [hsave] at hkept

theorem Saves.unique {store store' : Store} {es es' : List Entity}
    (h : Saves s u opened files overwrite store es)
    (h' : Saves s u opened files overwrite store' es') : store = store' ∧ es = es' := by
  obtain ⟨batches, hbatches, rfl⟩ := inputs_iff.mp h.inputs
  obtain ⟨batches', hbatches', rfl⟩ := inputs_iff.mp h'.inputs
  cases h.opened.symm.trans h'.opened
  cases hbatches.symm.trans hbatches'
  exact ⟨rfl, rfl⟩

/-- A run of `save` after its store was opened. It ends well exactly if the entities of all files
are saved together, and then it reports them in order. Otherwise it fails without output, and
changes nothing more, unless the file system stops the writing. -/
structure AllOrNothing (s : Surroundings) (u : Tree) (opened : Except IoError Store)
    (files : List String) (overwrite : Bool) (o : Outcome) : Prop where
  succeeds : o.code = 0 ↔ ∃ store es, Saves s u opened files overwrite store es
  saved : ∀ store es, Saves s u opened files overwrite store es →
    o.tree = (store.saveAll u es overwrite).1 ∧
      o.output = (Json.arr (es.map receipt)).pretty ++ "\n"
  failed : (¬ ∃ store es, Saves s u opened files overwrite store es) →
    o.code = 1 ∧ o.output = "" ∧ (Unhindered s u opened files overwrite → o.tree = u)

theorem allOrNothing_save
    (hopen : Store.openAt t [] (settings.storePath s.workingDirectory) settings.storeOptions =
      (u, opened)) (files : List String) (overwrite : Bool) :
    AllOrNothing s u opened files overwrite (save s settings t files overwrite).outcome := by
  rcases save_cases hopen with ⟨store, es, hsaves, hsave⟩ | ⟨hnone, v, why, hsave, hkept⟩
  · rw [hsave]
    refine ⟨iff_of_true rfl ⟨store, es, hsaves⟩, fun store' es' hsaves' => ?_,
      fun hnone => absurd ⟨store, es, hsaves⟩ hnone⟩
    obtain ⟨rfl, rfl⟩ := hsaves.unique hsaves'
    exact ⟨rfl, rfl⟩
  · rw [hsave]
    have hcode : (1 : UInt8) ≠ 0 := by decide
    exact ⟨iff_of_false hcode hnone, fun store es hsaves => absurd ⟨store, es, hsaves⟩ hnone,
      fun _ => ⟨rfl, rfl, hkept⟩⟩

/-- The command `save` saves all records of all its files together or none of them. If it saves none
nothing has changed, but for directories that opening the store has made on the way of its path. -/
theorem run_save_all_or_nothing (s : Surroundings) (t u : Tree) (arguments : List String)
    (i : Invocation) (files : List String) (overwrite : Bool) (settings : Settings)
    (opened : Except IoError Store) (hparse : parse? arguments = some i)
    (hcommand : i.command = .save files overwrite)
    (hload : Settings.load s t i.settingsFile = .ok settings)
    (hopen : Store.openAt t [] (Path.join s.workingDirectory (i.storePath.getD settings.path))
      settings.storeOptions = (u, opened)) :
    AllOrNothing s u opened files overwrite (run s t arguments) ∧
      OnlyOpened (Path.join s.workingDirectory (i.storePath.getD settings.path)) t u opened := by
  have hpath (path : String) :
      ({ settings with path } : Settings).storePath s.workingDirectory =
        Path.join s.workingDirectory path := rfl
  have hoptions (path : String) :
      ({ settings with path } : Settings).storeOptions = settings.storeOptions := rfl
  refine ⟨?_, onlyOpened_openAt hopen⟩
  rw [run_save hparse hcommand hload]
  refine allOrNothing_save ?_ files overwrite
  rw [hpath, hoptions]
  exact hopen

/-- Where the program runs in the top directory, and nothing is set. -/
def atTop : Surroundings := ⟨"/", none, []⟩

/-- A tree with a file of two records, and one that holds no records. -/
def inbox : Tree := ⟨[
  (["in.json"], .file (.text
    ("[\x7b\"id\":\"cd613e30-d8f1-4adf-91b7-584a2265b1f5\",\"kind\":\"Device\"\x7d," ++
      "\x7b\"id\":\"6e2f0f2d-bd49-4ed5-b3ab-4e5d8c1a1c05\",\"kind\":\"Persona\"," ++
        "\"name\":\"Eve\"\x7d]"))),
  (["void.json"], .file (.text "null"))]⟩

/-- Two records are saved from one file, and none beside a file that holds none. -/
theorem run_save_inbox :
    (∃ (store : Store) (es : List Entity), (run atTop inbox ["-s", "st", "save", "in.json"]).tree =
      (store.saveAll (Store.openAt inbox [] "/st" {}).1 es false).1) ∧
    (run atTop inbox ["-s", "st", "save", "void.json", "in.json"]).tree =
      (Store.openAt inbox [] "/st" {}).1 := by
  have hload : Settings.load atTop inbox none = .ok {} := by decide +kernel
  obtain ⟨hsaved, -⟩ := run_save_all_or_nothing atTop inbox _
    ["-s", "st", "save", "in.json"] ⟨none, some "st", .save ["in.json"] false⟩ ["in.json"] false {}
    _ (by decide) rfl hload rfl
  obtain ⟨hfailed, -⟩ := run_save_all_or_nothing atTop inbox _
    ["-s", "st", "save", "void.json", "in.json"]
    ⟨none, some "st", .save ["void.json", "in.json"] false⟩ ["void.json", "in.json"] false {}
    _ (by decide) rfl hload rfl
  obtain ⟨store, es, hsaves⟩ := hsaved.succeeds.mp (by decide +kernel)
  have hnone := mt hfailed.succeeds.mpr (by decide +kernel)
  refine ⟨⟨store, es, (hsaved.saved store es hsaves).1⟩, (hfailed.failed hnone).2.2 ?_⟩
  intro store es err _ hinputs
  obtain ⟨batches, hread, -⟩ := inputs_iff.mp hinputs
  cases hread

/-- A path that leads through the place of a kind and out again. -/
def roundabout : Store := ⟨["st"], "/st/Device/..", {}⟩

theorem openAt_roundabout : Store.openAt .empty [] "/st/Device/.." {} =
    (⟨[(["st"], .directory), (["st", "Device"], .directory)]⟩, .ok roundabout) := by
  rfl

/-- The command `save` may fail and leave a directory of a kind behind, if the path of the store
leads through it. -/
theorem not_run_save_spares_namespaces : ¬ ∀ (s : Surroundings) (t u : Tree)
    (arguments : List String) (i : Invocation) (files : List String) (overwrite : Bool)
    (settings : Settings) (store : Store), parse? arguments = some i →
      i.command = .save files overwrite → Settings.load s t i.settingsFile = .ok settings →
      Store.openAt t [] (Path.join s.workingDirectory (i.storePath.getD settings.path))
        settings.storeOptions = (u, .ok store) →
      Unhindered s u (.ok store) files overwrite → (run s t arguments).code ≠ 0 →
      ∀ k, (run s t arguments).tree.node? (store.namespacePath k) =
        t.node? (store.namespacePath k) := by
  intro h
  have hload : Settings.load atTop .empty none = .ok {} := by decide +kernel
  have hmissing : Unhindered atTop ⟨[(["st"], .directory), (["st", "Device"], .directory)]⟩
      (.ok roundabout) ["missing.json"] false := by
    intro store es err _ hinputs
    obtain ⟨batches, hread, -⟩ := inputs_iff.mp hinputs
    cases hread
  have hsame := h atTop .empty _ ["-s", "st/Device/..", "save", "missing.json"]
    ⟨none, some "st/Device/..", .save ["missing.json"] false⟩ ["missing.json"] false {} roundabout
    (by decide) rfl hload openAt_roundabout hmissing (by decide +kernel) .device
  have hmade : (run atTop .empty ["-s", "st/Device/..", "save", "missing.json"]).tree.node?
      (roundabout.namespacePath .device) = some .directory := by decide +kernel
  rw [hsame] at hmade
  cases hmade

end Run

end EntityStore.CommandLine
