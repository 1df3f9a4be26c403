import EntityStore.Proofs.Except
import EntityStore.Proofs.Toml.String
import EntityStore.Settings.Load

/-! Settings are read back from their text, whatever the layers below it hold. -/
namespace EntityStore

open Toml (Item Items Reader)

namespace Settings

section Text

variable {v w : Json} {items : Items}

/-- A reader at the start of a line under the header of the store, whose table has some items. -/
def inStore (items : Items) : Reader :=
  ⟨[("store", .table .header items)], ["store"], [], .line, .none⟩

theorem run_path (path : String) :
    Reader.start.run ("[store]\npath = ".toList ++ (Toml.quoted path.toList ++ ['\n'])) =
      some (inStore [("path", .value (.str path))]) := by
  have hstart : Reader.start.run "[store]\npath = ".toList =
      some ⟨[("store", .table .header [])], ["store"], [.entry ["path"]], .value, .none⟩ := rfl
  rw [Reader.run_append, hstart, Option.bind_some, Reader.run_quoted, Reader.ended,
    String.ofList_toList]
  rfl

theorem run_outputFormat (f : OutputFormat) :
    (inStore [("path", .value v)]).run
        ("output_format = \"".toList ++ (f.name.toList ++ "\"\n".toList)) =
      some (inStore [("output_format", .value (.str f.name)), ("path", .value v)]) := by
  cases f <;> rfl

theorem run_atomicWrites (b : Bool) :
    (inStore [("output_format", .value w), ("path", .value v)]).run
        ("atomic_writes = ".toList ++ ((truthWord b).toList ++ "\n".toList)) =
      some (inStore [("atomic_writes", .value (.bool b)), ("output_format", .value w),
        ("path", .value v)]) := by
  cases b <;> rfl

theorem run_validation (b : Bool) :
    (inStore items).run
        ("\n[validation]\nstrict_enum_case = ".toList ++ ((truthWord b).toList ++ "\n".toList)) =
      some ⟨[("store", .table .header items), ("validation", .table .header
        [("strict_enum_case", .value (.bool b))])], ["validation"], [], .line, .none⟩ := by
  cases b <;> rfl

/-- The text of settings, one piece for each of them. -/
theorem toList_toToml (s : Settings) : s.toToml.toList =
    ("[store]\npath = ".toList ++ (Toml.quoted s.path.toList ++ ['\n'])) ++
      (("output_format = \"".toList ++ (s.outputFormat.name.toList ++ "\"\n".toList)) ++
        (("atomic_writes = ".toList ++ ((truthWord s.atomicWrites).toList ++ "\n".toList)) ++
          ("\n[validation]\nstrict_enum_case = ".toList ++
            ((truthWord s.strictCase).toList ++ "\n".toList)))) := by
  -- Each piece takes the end of its line from the literal that the next one begins in.
  have hformat : "\noutput_format = \"".toList = ['\n'] ++ "output_format = \"".toList := rfl
  have hwrites : "\"\natomic_writes = ".toList = "\"\n".toList ++ "atomic_writes = ".toList := rfl
  have hcase : "\n\n[validation]\nstrict_enum_case = ".toList =
      "\n".toList ++ "\n[validation]\nstrict_enum_case = ".toList := rfl
  unfold toToml
  simp only [String.toList_append, String.toList_ofList]
  rw [hformat, hwrites, hcase]
  simp only [List.append_assoc]

theorem exists_cons_toToml (s : Settings) : ∃ cs, s.toToml.toList = '[' :: cs :=
  ⟨_, toList_toToml s⟩

theorem return_notMem_truthWord (b : Bool) : '\r' ∉ (truthWord b).toList := by
  cases b <;> decide

theorem return_notMem_toToml (s : Settings) : '\r' ∉ s.toToml.toList := by
  have hname : '\r' ∉ s.outputFormat.name.toList := by cases s.outputFormat <;> decide
  rw [toList_toToml]
  simp only [List.mem_append, not_or]
  exact ⟨⟨by decide, Toml.return_notMem_quoted _, by decide⟩, ⟨by decide, hname, by decide⟩,
    ⟨by decide, return_notMem_truthWord _, by decide⟩, by decide, return_notMem_truthWord _,
    by decide⟩

theorem membersOf_toJson (s : Settings) : membersOf s.toJson =
    [("store", .obj [("atomic_writes", .bool s.atomicWrites),
      ("output_format", .str s.outputFormat.name), ("path", .str s.path)]),
    ("validation", .obj [("strict_enum_case", .bool s.strictCase)])] := by
  simp only [toJson, storeSection, validationSection, membersOf, Json.ofMembers, Assoc.ofList,
    List.foldl_cons, List.foldl_nil]
  rfl

/-- The text of settings has the members of their value. -/
theorem parse?_toToml (s : Settings) : Toml.parse? s.toToml = some (membersOf s.toJson) := by
  have hread : Reader.start.run s.toToml.toList = some ⟨[("store", .table .header
      [("atomic_writes", .value (.bool s.atomicWrites)),
        ("output_format", .value (.str s.outputFormat.name)), ("path", .value (.str s.path))]),
      ("validation", .table .header [("strict_enum_case", .value (.bool s.strictCase))])],
      ["validation"], [], .line, .none⟩ := by
    rw [toList_toToml, Reader.run_append, run_path, Option.bind_some, Reader.run_append,
      run_outputFormat, Option.bind_some, Reader.run_append, run_atomicWrites, Option.bind_some,
      run_validation]
  have hparse : Toml.parse? s.toToml =
      ((Reader.start.run (Toml.joinBreaks s.toToml.toList)).bind Reader.finish).map
        Toml.membersOf := by
    obtain ⟨cs, hcs⟩ := exists_cons_toToml s
    rw [Toml.parse?, hcs]
    rfl
  rw [hparse, Toml.joinBreaks_eq_self (return_notMem_toToml s), hread, membersOf_toJson]
  show some (Toml.membersOf _) = _
  simp only [Toml.membersOf, Item.toJson]

/-- The text of settings has no byte order mark in front. -/
theorem withoutMark_toToml (s : Settings) : withoutMark s.toToml = s.toToml := by
  obtain ⟨cs, hcs⟩ := exists_cons_toToml s
  rw [withoutMark, hcs]
  rfl

end Text

section Layers

variable {old : Json} {layer members : List (String × Json)} {key name : String} {v : Json}

/-- Keys that stand for themselves, each once. -/
structure Plain (keys : List String) : Prop where
  nodup : keys.Nodup
  folded : ∀ key ∈ keys, foldKey key = key

theorem Plain.of_cons {keys : List String} (h : Plain (key :: keys)) : Plain keys :=
  ⟨(List.nodup_cons.mp h.nodup).2, fun k hk => h.folded k (List.mem_cons_of_mem key hk)⟩

theorem overlayMembers_cons (hkey : foldKey key = key) (old v : Json)
    (rest : List (String × Json)) : overlayMembers old ((key, v) :: rest) =
      overlayMembers (.obj (Assoc.insert key (overlay (old.member? key) v) (membersOf old)))
        rest := by
  rw [overlayMembers, hkey]

/-- Members laid over a value make an object of it. -/
theorem exists_obj_overlayMembers (hne : members ≠ []) (old : Json) :
    ∃ merged, overlayMembers old members = .obj merged := by
  induction members generalizing old with
  | nil => exact absurd rfl hne
  | cons p rest ih =>
    rw [overlayMembers]
    cases rest with
    | nil => exact ⟨_, rfl⟩
    | cons q rest => exact ih (List.cons_ne_nil q rest) _

/-- Members of other keys leave what stands at a key. -/
theorem member?_overlayMembers_of_notMem (hplain : Plain (members.map Prod.fst))
    (hkey : key ∉ members.map Prod.fst) :
    (overlayMembers old members).member? key = old.member? key := by
  induction members generalizing old with
  | nil => rw [overlayMembers]
  | cons p rest ih =>
    obtain ⟨k, v⟩ := p
    have hne : key ≠ k := List.ne_of_not_mem_cons hkey
    rw [overlayMembers_cons (hplain.folded k List.mem_cons_self),
      ih hplain.of_cons (List.not_mem_of_not_mem_cons hkey), Json.member?,
      Assoc.find?_insert_of_ne hne]
    cases old <;> rfl

/-- Of members laid over a value, each counts at its key, whatever stands there. -/
theorem exists_member?_overlayMembers (hplain : Plain (members.map Prod.fst))
    (hmem : (key, v) ∈ members) (old : Json) :
    ∃ below, (overlayMembers old members).member? key = some (overlay below v) := by
  induction members generalizing old with
  | nil => exact absurd hmem List.not_mem_nil
  | cons p rest ih =>
    obtain ⟨k, w⟩ := p
    rw [overlayMembers_cons (hplain.folded k List.mem_cons_self)]
    rcases List.mem_cons.mp hmem with heq | hmem
    · obtain ⟨rfl, rfl⟩ := Prod.mk.inj heq
      refine ⟨old.member? key, ?_⟩
      rw [member?_overlayMembers_of_notMem hplain.of_cons (List.nodup_cons.mp hplain.nodup).1,
        Json.member?, Assoc.find?_insert_self]
    · exact ih hplain.of_cons hmem _

/-- A layer whose keys are names is laid over the others as the members of an object. -/
theorem addLayer_eq_overlayMembers
    (hpath : ∀ key ∈ layer.map Prod.fst, keyPath key = [.member key]) (old : Json) :
    addLayer old layer = overlayMembers old layer := by
  induction layer generalizing old with
  | nil =>
    rw [overlayMembers]
    rfl
  | cons p rest ih =>
    obtain ⟨key, v⟩ := p
    obtain ⟨hkey, hrest⟩ := List.forall_mem_cons.mp hpath
    have hone : overlayAt old (keyPath key) v = overlayMembers old [(key, v)] := by
      rw [hkey, overlayAt]
    show addLayer (overlayAt old (keyPath key) v) rest = _
    rw [hone, ih hrest, overlayMembers, overlayMembers, overlayMembers]

/-- The values of a section in a layer count key by key, whatever the layers below it hold. -/
theorem exists_section_addLayer (hnames : Plain (layer.map Prod.fst))
    (hpath : ∀ key ∈ layer.map Prod.fst, keyPath key = [.member key])
    (hmem : (name, .obj members) ∈ layer) (hne : members ≠ [])
    (hplain : Plain (members.map Prod.fst)) (old : Json) :
    ∃ merged, (addLayer old layer).member? name = some (.obj merged) ∧
      ∀ key v, (key, v) ∈ members → (∀ below, overlay below v = v) →
        Assoc.find? key merged = some v := by
  obtain ⟨below, hbelow⟩ := exists_member?_overlayMembers hnames hmem old
  obtain ⟨merged, hmerged⟩ := exists_obj_overlayMembers hne (below.getD (.obj []))
  refine ⟨merged, ?_, fun key v hv hvalue => ?_⟩
  · rw [addLayer_eq_overlayMembers hpath, hbelow, overlay, hmerged]
  · obtain ⟨deeper, hdeeper⟩ := exists_member?_overlayMembers hplain hv (below.getD (.obj []))
    rw [hmerged, hvalue deeper] at hdeeper
    exact hdeeper

theorem overlay_str (text : String) (below : Option Json) :
    overlay below (.str text) = .str text := by
  rw [overlay]
  exact nofun

theorem overlay_bool (b : Bool) (below : Option Json) : overlay below (.bool b) = .bool b := by
  rw [overlay]
  exact nofun

theorem format?_name (f : OutputFormat) : format? (.str f.name) = some f := by
  cases f <;> decide

/-- Settings laid over whatever the layers below hold are the settings that come out. -/
theorem ofJson_addLayer_toJson (s : Settings) (old : Json) :
    ofJson (addLayer old (membersOf s.toJson)) = .ok s := by
  have hsections : (membersOf s.toJson).map Prod.fst = ["store", "validation"] := by
    rw [membersOf_toJson]
    rfl
  have hnames : Plain ((membersOf s.toJson).map Prod.fst) := by
    rw [hsections]
    exact ⟨by decide, by decide⟩
  have hpath : ∀ key ∈ (membersOf s.toJson).map Prod.fst, keyPath key = [.member key] := by
    rw [hsections]
    decide
  have hstoreKeys : Plain ["atomic_writes", "output_format", "path"] := ⟨by decide, by decide⟩
  have hvalidationKeys : Plain ["strict_enum_case"] := ⟨by decide, by decide⟩
  have hstoreIn : ("store", .obj [("atomic_writes", .bool s.atomicWrites),
      ("output_format", .str s.outputFormat.name), ("path", .str s.path)]) ∈
        membersOf s.toJson := by
    rw [membersOf_toJson]
    exact List.mem_cons_self
  have hvalidationIn : ("validation", .obj [("strict_enum_case", .bool s.strictCase)]) ∈
      membersOf s.toJson := by
    rw [membersOf_toJson]
    exact List.mem_cons_of_mem _ List.mem_cons_self
  obtain ⟨store, hstore, hin⟩ := exists_section_addLayer hnames hpath hstoreIn
    (List.cons_ne_nil _ _) hstoreKeys old
  obtain ⟨validation, hvalidation, hin'⟩ := exists_section_addLayer hnames hpath hvalidationIn
    (List.cons_ne_nil _ _) hvalidationKeys old
  have hatomic : Assoc.find? "atomic_writes" store = some (.bool s.atomicWrites) :=
    hin _ _ List.mem_cons_self (overlay_bool _)
  have hformat : Assoc.find? "output_format" store = some (.str s.outputFormat.name) :=
    hin _ _ (List.mem_cons_of_mem _ List.mem_cons_self) (overlay_str _)
  have htext : Assoc.find? "path" store = some (.str s.path) :=
    hin _ _ (List.mem_cons_of_mem _ (List.mem_cons_of_mem _ List.mem_cons_self)) (overlay_str _)
  have hcase : Assoc.find? "strict_enum_case" validation = some (.bool s.strictCase) :=
    hin' _ _ List.mem_cons_self (overlay_bool _)
  rw [ofJson]
  simp only [storeSection, validationSection, hstore, hvalidation, fields, List.map_cons,
    List.map_nil, htext, hformat, hatomic, hcase, Except.ok_bind, List.getElem?_cons_zero,
    List.getElem?_cons_succ, Option.join_some, field, text?, format?_name, truth?,
    Option.elim_some]
  rfl

end Layers

section Load

variable {s : Surroundings} {t : Tree} {file : String} {p : Path} {settings : Settings}

/-- The layer of a file with the text of settings. -/
theorem requiredLayer_toToml (hlocate : locate t s.base file = .ok (p, .toml))
    (hread : t.readText p = .ok settings.toToml) :
    requiredLayer t s.base file = .ok (membersOf settings.toJson) := by
  simp only [requiredLayer, hlocate, hread, Except.ok_bind, Except.mapError_ok,
    withoutMark_toToml, FileFormat.parse?, parse?_toToml, Option.elim_some]

/-- The layer of a file that may be absent is there, unless the file is malformed. -/
theorem exists_optionalLayer {base : Path} {name : String}
    (h : ∀ file, requiredLayer t base name ≠ .error (.malformed file)) :
    ∃ layer, optionalLayer t base name = .ok layer := by
  unfold optionalLayer
  split
  · exact ⟨_, rfl⟩
  · exact absurd ‹_› (h _)
  · exact ⟨[], rfl⟩

theorem variableLayer_eq_nil {environment : List (String × String)}
    (h : ∀ v ∈ environment, variableKey? v.1 = none) : variableLayer environment = [] := by
  rw [variableLayer, List.filterMap_eq_nil_iff]
  intro v hv
  show (variableKey? v.1).map _ = none
  rw [h v hv, Option.map_none]

/-- Settings are loaded as they were written from a file that is asked for, whatever the files of
the working directory and the user's file hold, when there are no variables. -/
theorem load_toToml (hlocate : locate t s.base file = .ok (p, .toml))
    (hread : t.readText p = .ok settings.toToml)
    (hbelow : ∀ name ∈ defaultFiles ++ s.userFile.toList,
      ∀ file, requiredLayer t s.base name ≠ .error (.malformed file))
    (hvariables : ∀ v ∈ s.environment, variableKey? v.1 = none) :
    load s t (some file) = .ok settings := by
  have hoptional (names : List String) (hnames : names ⊆ defaultFiles ++ s.userFile.toList) :
      ∃ layers, names.mapM (optionalLayer t s.base) = .ok layers :=
    Except.exists_mapM_eq_ok_iff.mpr fun name hname =>
      exists_optionalLayer (hbelow name (hnames hname))
  obtain ⟨defaults, hdefaults⟩ := hoptional defaultFiles (List.subset_append_left _ _)
  obtain ⟨user, huser⟩ := hoptional s.userFile.toList (List.subset_append_right _ _)
  have hlayers : layers s t (some file) =
      .ok (defaults ++ user ++ [membersOf settings.toJson] ++ [[]]) := by
    rw [layers, hdefaults, Except.ok_bind, huser, Except.ok_bind,
      variableLayer_eq_nil hvariables]
    simp only [Option.toList_some, List.mapM_cons, List.mapM_nil,
      requiredLayer_toToml hlocate hread, Except.ok_bind, Except.pure_eq_ok]
  rw [load, hlayers, Except.ok_bind, addLayers, List.foldl_append, List.foldl_append]
  exact ofJson_addLayer_toJson settings _

/-- Settings whose path needs escapes, and has what would end a string of either quote. -/
def awkward : Settings := ⟨"a'''b\"\"\"\\c\r\n\t\x00 = true", .compact, false, true⟩

/-- A working directory with a file of settings, one in the working directory that differs from it
in every key, and one of the user that has a text in the place of a section. -/
def rivals : Tree := ⟨[
  (["custom.toml"], .file (.text awkward.toToml)),
  (["cyberdem.toml"], .file (.text
    ("[Store]\nPath = \"below\"\noutput_format = \"pretty\"\natomic_writes = true\n" ++
      "[validation]\nstrict_enum_case = false\n"))),
  (["home"], .directory),
  (["home", "cyberdem.toml"], .file (.text "store = \"none\"\n"))]⟩

theorem load_toToml_rivals :
    load ⟨"/", some "/home/cyberdem.toml", [("PATH", "/bin")]⟩ rivals (some "custom") =
      .ok awkward := by
  have hvisible : (requiredLayer rivals [] "cyberdem.toml").toOption.isSome := by decide +kernel
  have huser : (requiredLayer rivals [] "/home/cyberdem.toml").toOption.isSome := by
    decide +kernel
  refine load_toToml rfl rfl ?_ (by decide)
  intro name hname file hmalformed
  replace hname : name ∈ ["cyberdem.toml", ".cyberdem.toml", "config/cyberdem.toml",
    "/home/cyberdem.toml"] := hname
  replace hmalformed : requiredLayer rivals [] name = .error (.malformed file) := hmalformed
  simp only [List.mem_cons, List.not_mem_nil, or_false] at hname
  rcases hname with rfl | rfl | rfl | rfl
  · rw [hmalformed] at hvisible
    exact Bool.noConfusion hvisible
  · cases hmalformed
  · cases hmalformed
  · rw [hmalformed] at huser
    exact Bool.noConfusion huser

end Load

end Settings

end EntityStore
