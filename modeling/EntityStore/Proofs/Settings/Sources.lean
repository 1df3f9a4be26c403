import EntityStore.Proofs.Settings.Layers

/-! Settings from files and variables, in the order in which they are laid over one another. -/
namespace EntityStore.Settings

section Files

variable {s : Surroundings} {t : Tree} {base : Path} {name : String} {a : Assignment}

/-- A settings file that is there, with what it assigns. -/
def FileAssigns (t : Tree) (base : Path) (name : String) (a : Assignment) : Prop :=
  ∃ p format text layer, locate t base name = .ok (p, format) ∧ t.readText p = .ok text ∧
    format.parse? (withoutMark text) = some layer ∧ Assigns layer a

instance (t : Tree) (base : Path) (name : String) (a : Assignment) :
    Decidable (FileAssigns t base name a) := by
  refine decidable_of_iff (((locate t base name).toOption.any fun found =>
    (t.readText found.1).toOption.any fun text =>
      (found.2.parse? (withoutMark text)).any fun layer => decide (Assigns layer a)) = true) ?_
  simp only [FileAssigns, Option.any_eq_true, Except.toOption_eq_some_iff, decide_eq_true_eq,
    Prod.exists]
  constructor
  · rintro ⟨p, format, hlocate, text, hread, layer, hparse, ha⟩
    exact ⟨p, format, text, layer, hlocate, hread, hparse, ha⟩
  · rintro ⟨p, format, text, layer, hlocate, hread, hparse, ha⟩
    exact ⟨p, format, hlocate, text, hread, layer, hparse, ha⟩

/-- A settings file that may be absent, and then assigns nothing. -/
inductive MayAssign (t : Tree) (base : Path) (name : String) : Assignment → Prop
  | absent (h : locate t base name = .error (.missing name)) : MayAssign t base name {}
  | present {a : Assignment} (h : FileAssigns t base name a) : MayAssign t base name a

theorem FileAssigns.exists_layer (h : FileAssigns t base name a) :
    ∃ layer, requiredLayer t base name = .ok layer ∧ Assigns layer a := by
  obtain ⟨p, format, text, layer, hlocate, hread, hparse, ha⟩ := h
  refine ⟨layer, ?_, ha⟩
  simp only [requiredLayer, hlocate, hread, hparse, Except.ok_bind, Except.mapError_ok,
    Option.elim_some]

theorem assigns_nil : Assigns [] {} := ⟨nofun, rfl, rfl, rfl, rfl⟩

theorem MayAssign.exists_layer (h : MayAssign t base name a) :
    ∃ layer, optionalLayer t base name = .ok layer ∧ Assigns layer a := by
  unfold optionalLayer
  cases h with
  | absent h =>
    have hmissing : requiredLayer t base name = .error (.missing name) := by
      rw [requiredLayer, h]
      rfl
    rw [hmissing]
    exact ⟨[], rfl, assigns_nil⟩
  | present h =>
    obtain ⟨layer, hlayer, ha⟩ := h.exists_layer
    rw [hlayer]
    exact ⟨layer, rfl, ha⟩

/-- The layers of some files, one for each. -/
theorem exists_layers {R : String → Assignment → Prop}
    {load : String → Except SettingsError (List (String × Json))}
    (hload : ∀ name a, R name a → ∃ layer, load name = .ok layer ∧ Assigns layer a)
    {names : List String} {as : List Assignment} (h : List.Forall₂ R names as) :
    ∃ layers, names.mapM load = .ok layers ∧ List.Forall₂ Assigns layers as := by
  induction h with
  | nil => exact ⟨[], rfl, .nil⟩
  | @cons name a names as ha _ ih =>
    obtain ⟨layer, hlayer, hassigns⟩ := hload name a ha
    obtain ⟨layers, hlayers, hrest⟩ := ih
    refine ⟨layer :: layers, ?_, .cons hassigns hrest⟩
    rw [List.mapM_cons, hlayer, hlayers]
    rfl

end Files

section Variables

variable {environment : List (String × String)} {name key text : String} {v : Json}
  {path : List Step} {a : Assignment}

/-- Whether a path leads to a key of a section. -/
def leads (name key : String) : List Step → Bool
  | [.member n, .member k] => foldKey n = name && foldKey k = key
  | _ => false

/-- The texts of the variables for a key of a section. -/
def variableTexts (name key : String) (environment : List (String × String)) : List String :=
  (environment.filter fun v => (variableKey? v.1).any fun k => leads name key (keyPath k)).map (·.2)

/-- A text that no number and no truth value is spelled as. -/
@[mk_iff]
structure IsWording (text : String) : Prop where
  no_truth : ∀ b, Text.sameFolded text (truthWord b) = false
  no_integer : Numeral.integer? text.toList = none
  no_float : Numeral.binary64? text.toList = none

/-- Variables that have a text for some of the settings, once and of the right type, and anything
under other names. -/
@[mk_iff]
structure Exports (environment : List (String × String)) (a : Assignment) : Prop where
  orderly : ∀ v ∈ environment, ∀ k ∈ variableKey? v.1, Orderly (keyPath k) (variableValue v.2)
  path : variableTexts storeSection "path" environment = a.path.toList
  outputFormat : (variableTexts storeSection "output_format" environment).map
    (named? ∘ variableValue) = (a.outputFormat.map some).toList
  atomicWrites : (variableTexts storeSection "atomic_writes" environment).map
    (truth? ∘ variableValue) = (a.atomicWrites.map some).toList
  strictCase : (variableTexts validationSection "strict_enum_case" environment).map
    (truth? ∘ variableValue) = (a.strictCase.map some).toList

instance (environment : List (String × String)) (a : Assignment) :
    Decidable (Exports environment a) :=
  decidable_of_iff' _ (exports_iff environment a)

instance (text : String) : Decidable (IsWording text) := decidable_of_iff' _ (isWording_iff text)

/-- A text after it has been taken for a value of another type, where it is one, and written out
again. -/
def retyped (text : String) : String := (text? (variableValue text)).getD text

theorem variableValue_cases (text : String) :
    (∃ b, Text.sameFolded text (truthWord b) = true ∧ variableValue text = .bool b) ∨
      (∃ n m, Numeral.integer? text.toList = some n ∧ Numeral.int64? n = some m ∧
        variableValue text = .int m.toInt) ∨
      (∃ x, (Numeral.integer? text.toList).bind Numeral.int64? = none ∧
        Numeral.binary64? text.toList = some x ∧ variableValue text = .float x) ∨
      ((∀ b, Text.sameFolded text (truthWord b) = false) ∧
        Numeral.binary64? text.toList = none ∧ variableValue text = .str text) := by
  unfold variableValue
  split_ifs with htrue hfalse
  · exact .inl ⟨true, htrue, rfl⟩
  · exact .inl ⟨false, hfalse, rfl⟩
  · split
    next m hm =>
      obtain ⟨n, hn, hm⟩ := Option.bind_eq_some_iff.mp hm
      exact .inr (.inl ⟨n, m, hn, hm, rfl⟩)
    next hnone =>
      split
      next x hx => exact .inr (.inr (.inl ⟨x, hnone, hx, rfl⟩))
      next hx =>
        refine .inr (.inr (.inr ⟨fun b => ?_, hx, rfl⟩))
        cases b
        · exact Bool.eq_false_iff.mpr hfalse
        · exact Bool.eq_false_iff.mpr htrue

theorem text?_variableValue (text : String) : text? (variableValue text) = some (retyped text) := by
  unfold retyped
  obtain ⟨b, -, h⟩ | ⟨n, m, -, -, h⟩ | ⟨x, -, -, h⟩ | ⟨-, -, h⟩ := variableValue_cases text <;>
    rw [h] <;> rfl

theorem isAtomic_variableValue (text : String) : IsAtomic (variableValue text) := by
  intro members
  obtain ⟨b, -, h⟩ | ⟨n, m, -, -, h⟩ | ⟨x, -, -, h⟩ | ⟨-, -, h⟩ := variableValue_cases text <;>
    rw [h] <;> exact nofun

theorem IsWording.retyped (h : IsWording text) : retyped text = text := by
  have hvalue : variableValue text = .str text := by
    have htrue := h.no_truth true
    have hfalse := h.no_truth false
    simp only [truthWord, if_true, Bool.false_eq_true, if_false] at htrue hfalse
    simp only [variableValue, htrue, hfalse, h.no_integer, h.no_float, Option.bind_none,
      Bool.false_eq_true, if_false]
  rw [Settings.retyped, hvalue]
  rfl

theorem entryValues_of_isAtomic (hv : IsAtomic v) (path : List Step) :
    entryValues name key path v = if leads name key path then [v] else [] := by
  match path with
  | [] | .item _ :: _ | .member _ :: .item _ :: _ | .member _ :: .member _ :: _ :: _ => rfl
  | [.member n] =>
    cases v with
    | obj members => exact absurd rfl (hv members)
    | _ => rfl
  | [.member n, .member k] =>
    by_cases hn : foldKey n = name
    · by_cases hk : foldKey k = key
      · simp [entryValues, leads, hn, hk, memberValues_cons_of_eq, memberValues_nil]
      · simp [entryValues, leads, hn, hk, memberValues_cons_of_ne, memberValues_nil]
    · simp [entryValues, leads, hn]

/-- The layer of some variables has the values of their texts. -/
theorem layerValues_variableLayer (name key : String) (environment : List (String × String)) :
    layerValues name key (variableLayer environment) =
      (variableTexts name key environment).map variableValue := by
  induction environment with
  | nil => rfl
  | cons v rest ih =>
    obtain ⟨variableName, text⟩ := v
    have hlayer : variableLayer ((variableName, text) :: rest) =
        ((variableKey? variableName).map (·, variableValue text)).toList ++ variableLayer rest := by
      unfold variableLayer
      rw [List.filterMap_cons]
      dsimp only
      cases variableKey? variableName <;> rfl
    have hlayerValues : layerValues name key (variableLayer ((variableName, text) :: rest)) =
        (variableKey? variableName).toList.flatMap (fun k =>
          entryValues name key (keyPath k) (variableValue text)) ++
            (variableTexts name key rest).map variableValue := by
      rw [hlayer, layerValues, List.flatMap_append, ← ih]
      cases variableKey? variableName <;> rfl
    unfold variableTexts at hlayerValues ⊢
    rw [hlayerValues, List.filter_cons]
    cases variableKey? variableName with
    | none => rfl
    | some k =>
      rw [Option.toList_some, List.flatMap_singleton, Option.any_some,
        entryValues_of_isAtomic (isAtomic_variableValue text)]
      split_ifs <;> rfl

theorem Exports.assigns (h : Exports environment a) :
    Assigns (variableLayer environment) { a with path := a.path.map Settings.retyped } := by
  have hvalues (name key : String) := layerValues_variableLayer name key environment
  refine ⟨?_, ?_, ?_, ?_, ?_⟩
  · intro p hp
    obtain ⟨v, hv, hp⟩ := List.mem_filterMap.mp hp
    obtain ⟨k, hk, rfl⟩ := Option.map_eq_some_iff.mp hp
    exact h.orderly v hv k hk
  · rw [hvalues, h.path]
    cases a.path with
    | none => rfl
    | some text =>
      show [text? (variableValue text)] = _
      rw [text?_variableValue]
      rfl
  · rw [hvalues, List.map_map, h.outputFormat]
  · rw [hvalues, List.map_map, h.atomicWrites]
  · rw [hvalues, List.map_map, h.strictCase]

end Variables

section Load

variable {s : Surroundings} {t : Tree} {file : Option String}
  {defaults user asked : List Assignment} {exported : Assignment}

/-- The settings are those that the files and the variables assign. A path among the variables is
taken for a value of another type first, where it is one. -/
theorem load_retyped
    (hdefaults : List.Forall₂ (MayAssign t s.base) defaultFiles defaults)
    (huser : List.Forall₂ (MayAssign t s.base) s.userFile.toList user)
    (hasked : List.Forall₂ (FileAssigns t s.base) file.toList asked)
    (hexported : Exports s.environment exported) :
    load s t file = .ok (settle (defaults ++ user ++ asked ++
      [{ exported with path := exported.path.map retyped }])) := by
  obtain ⟨ls₁, hls₁, h₁⟩ := exists_layers (fun _ _ h => h.exists_layer) hdefaults
  obtain ⟨ls₂, hls₂, h₂⟩ := exists_layers (fun _ _ h => h.exists_layer) huser
  obtain ⟨ls₃, hls₃, h₃⟩ := exists_layers (fun _ _ h => h.exists_layer) hasked
  have hlayers : layers s t file = .ok (ls₁ ++ ls₂ ++ ls₃ ++ [variableLayer s.environment]) := by
    rw [layers, hls₁, Except.ok_bind, hls₂, Except.ok_bind, hls₃]
    rfl
  rw [load, hlayers, Except.ok_bind]
  refine ofJson_addLayers (List.rel_append (List.rel_append (List.rel_append h₁ h₂) h₃) ?_)
  exact .cons hexported.assigns .nil

/-- The settings load, and each has the value of the last layer that assigns it: of the files of the
working directory in their order, the user's file, the file that is asked for, and the variables.
Keys of other names count for nothing. -/
theorem load_layered
    (hdefaults : List.Forall₂ (MayAssign t s.base)
      ["cyberdem.toml", ".cyberdem.toml", "config/cyberdem.toml"] defaults)
    (huser : List.Forall₂ (MayAssign t s.base) s.userFile.toList user)
    (hasked : List.Forall₂ (FileAssigns t s.base) file.toList asked)
    (hexported : Exports s.environment exported)
    (hwording : ∀ text ∈ exported.path, IsWording text) :
    load s t file = .ok (settle (defaults ++ user ++ asked ++ [exported])) := by
  have hpath : exported.path.map retyped = exported.path := by
    cases h : exported.path with
    | none => rfl
    | some text => rw [Option.map_some, (hwording text h).retyped]
  rw [load_retyped hdefaults huser hasked hexported, hpath]

/-- A working directory with two settings files, a file of the user and one that may be asked for,
none of them with all settings, and each with keys of other names. -/
def stacked : Tree := ⟨[
  (["config"], .directory),
  (["config", "cyberdem.toml"], .file (.text
    "\"Store.Atomic_Writes\" = false\n\"store.color.deep\" = [1, 2]\n")),
  (["custom.json"], .file (.text
    "\x7b\"store\": \x7b\"output_format\": \"Pretty\", \"color\": null\x7d\x7d")),
  (["cyberdem.toml"], .file (.text
    "color = 3\n[Store]\npath = \"base\"\noutput_format = \"compact\"\n[validation.color]\n")),
  (["home"], .directory),
  (["home", "cyberdem.toml"], .file (.text
    "[validation]\nstrict_enum_case = true\ncolor = \"none\"\n"))]⟩

/-- Where a user has a settings file, and variables of any letter case. -/
def athome : Surroundings :=
  ⟨"/", some "/home/cyberdem.toml",
    [("PATH", "/bin"), ("cyberdem__Store__Path", "/data/fs"), ("CYBERDEM__COLOR", "7")]⟩

theorem load_layered_stacked :
    load athome stacked (some "custom") = .ok ⟨"/data/fs", .pretty, false, true⟩ := by
  have hbase : athome.base = [] := by decide +kernel
  have hdefaults : List.Forall₂ (MayAssign stacked athome.base)
      ["cyberdem.toml", ".cyberdem.toml", "config/cyberdem.toml"]
      [{ path := some "base", outputFormat := some .compact }, {},
        { atomicWrites := some false }] := by
    rw [hbase]
    exact .cons (.present (by decide +kernel)) (.cons (.absent rfl)
      (.cons (.present (by decide +kernel)) .nil))
  have huser : List.Forall₂ (MayAssign stacked athome.base) athome.userFile.toList
      [{ strictCase := some true }] := by
    rw [hbase]
    exact .cons (.present (by decide +kernel)) .nil
  have hasked : List.Forall₂ (FileAssigns stacked athome.base) (some "custom").toList
      [{ outputFormat := some .pretty }] := by
    rw [hbase]
    exact .cons (by decide +kernel) .nil
  have hexported : Exports athome.environment { path := some "/data/fs" } := by decide +kernel
  have hwording : ∀ text ∈ some "/data/fs", IsWording text := by
    rintro _ ⟨⟩
    decide +kernel
  exact load_layered hdefaults huser hasked hexported hwording

end Load

end EntityStore.Settings
