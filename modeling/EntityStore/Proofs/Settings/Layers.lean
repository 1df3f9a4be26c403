import EntityStore.Proofs.Settings.RoundTrip
import Mathlib.Tactic.MkIffOfInductiveProp

/-! Settings from layers: each one has the value that the last layer to assign it gives it. -/
namespace EntityStore.Settings

section Assignments

/-- The settings, each by its section and its key there. -/
def places : List (String × String) :=
  [(storeSection, "path"), (storeSection, "output_format"), (storeSection, "atomic_writes"),
    (validationSection, "strict_enum_case")]

def sections : List String := [storeSection, validationSection]

/-- An entry of a layer that takes the sections for tables and the settings for single values: it
stands outside the sections, is the table of one, or stands at a key of one. Below that key there is
no setting. -/
inductive Orderly : List Step → Json → Prop
  | outside {name : String} (h : foldKey name ∉ sections) (path : List Step) (v : Json) :
      Orderly (.member name :: path) v
  | table (name : String) (members : List (String × Json)) : Orderly [.member name] (.obj members)
  | key (name key : String) (v : Json) : Orderly [.member name, .member key] v
  | below {name key : String} (h : (foldKey name, foldKey key) ∉ places) (path : List Step)
      (v : Json) : Orderly (.member name :: .member key :: path) v

instance : (path : List Step) → (v : Json) → Decidable (Orderly path v)
  | [], _ => isFalse nofun
  | .item _ :: _, _ => isFalse nofun
  | .member name :: path, v =>
    if houtside : foldKey name ∉ sections then isTrue (.outside houtside path v)
    else match path, v with
      | [], .obj members => isTrue (.table name members)
      | [.member key], v => isTrue (.key name key v)
      | .member key :: step :: path, v =>
        if hbelow : (foldKey name, foldKey key) ∉ places then isTrue (.below hbelow _ v)
        else isFalse fun h => by
          cases h with
          | outside h => exact houtside h
          | below h => exact hbelow h
      | .item _ :: _, _ => isFalse fun h => by
          cases h with
          | outside h => exact houtside h
      | [], .null | [], .bool _ | [], .int _ | [], .float _ | [], .str _ | [], .arr _ =>
        isFalse fun h => by
          cases h with
          | outside h => exact houtside h

/-- The values of members at a key, in any letter case. -/
def memberValues (key : String) (members : List (String × Json)) : List Json :=
  (members.filter fun p => foldKey p.1 = key).map (·.2)

/-- The values that an entry of a layer has for a key of a section. -/
def entryValues (name key : String) : List Step → Json → List Json
  | [.member n], .obj members => if foldKey n = name then memberValues key members else []
  | [.member n, .member k], v => if foldKey n = name then memberValues key [(k, v)] else []
  | _, _ => []

/-- The values that a layer has for a key of a section. -/
def layerValues (name key : String) (layer : List (String × Json)) : List Json :=
  layer.flatMap fun p => entryValues name key (keyPath p.1) p.2

/-- A format by its name. -/
def named? (v : Json) : Option OutputFormat := v.str?.bind format?.ofName?

/-- Values for some of the settings. -/
structure Assignment where
  path : Option String := none
  outputFormat : Option OutputFormat := none
  atomicWrites : Option Bool := none
  strictCase : Option Bool := none
deriving DecidableEq

/-- A layer that has a value for some of the settings, once and of the right type, and anything
under keys of other names. -/
@[mk_iff]
structure Assigns (layer : List (String × Json)) (a : Assignment) : Prop where
  orderly : ∀ p ∈ layer, Orderly (keyPath p.1) p.2
  path : (layerValues storeSection "path" layer).map text? = (a.path.map some).toList
  outputFormat : (layerValues storeSection "output_format" layer).map named? =
    (a.outputFormat.map some).toList
  atomicWrites : (layerValues storeSection "atomic_writes" layer).map truth? =
    (a.atomicWrites.map some).toList
  strictCase : (layerValues validationSection "strict_enum_case" layer).map truth? =
    (a.strictCase.map some).toList

instance (layer : List (String × Json)) (a : Assignment) : Decidable (Assigns layer a) :=
  decidable_of_iff' _ (assigns_iff layer a)

/-- The last of some values. -/
def latest {α : Type} (f : Assignment → Option α) (as : List Assignment) : Option α :=
  (as.filterMap f).getLast?

/-- The settings after assignments in turn, each by itself. -/
def settle (as : List Assignment) : Settings where
  path := (latest (·.path) as).getD "./cyberdem-fs"
  outputFormat := (latest (·.outputFormat) as).getD .pretty
  atomicWrites := (latest (·.atomicWrites) as).getD true
  strictCase := (latest (·.strictCase) as).getD false

end Assignments

section Overlay

variable {old v : Json} {members : List (String × Json)} {name key : String} {path : List Step}

/-- A value that takes the place of what it is laid over. -/
def IsAtomic (v : Json) : Prop := ∀ members, v ≠ .obj members

theorem overlay_of_isAtomic (hv : IsAtomic v) (below : Option Json) : overlay below v = v := by
  rw [overlay]
  exact hv

theorem find?_membersOf (j : Json) (key : String) :
    Assoc.find? key (membersOf j) = j.member? key := by
  cases j <;> rfl

theorem getLast?_cons_or {α : Type} (a : α) (as : List α) (x : Option α) :
    (a :: as).getLast?.or x = as.getLast?.or (some a) := by
  rw [List.getLast?_cons]
  cases as.getLast? <;> rfl

theorem memberValues_nil (key : String) : memberValues key [] = [] := rfl

theorem memberValues_cons_of_eq {k : String} (h : foldKey k = key) (v : Json)
    (members : List (String × Json)) :
    memberValues key ((k, v) :: members) = v :: memberValues key members := by
  simp [memberValues, h]

theorem memberValues_cons_of_ne {k : String} (h : foldKey k ≠ key) (v : Json)
    (members : List (String × Json)) :
    memberValues key ((k, v) :: members) = memberValues key members := by
  simp [memberValues, h]

/-- Of members laid over a value, the last of a key counts there. -/
theorem member?_overlayMembers (hatomic : ∀ v ∈ memberValues key members, IsAtomic v)
    (old : Json) : (overlayMembers old members).member? key =
      (memberValues key members).getLast?.or (old.member? key) := by
  induction members generalizing old with
  | nil =>
    rw [overlayMembers]
    rfl
  | cons p rest ih =>
    obtain ⟨k, v⟩ := p
    rw [overlayMembers]
    by_cases hk : foldKey k = key
    · rw [memberValues_cons_of_eq hk] at hatomic ⊢
      obtain ⟨hv, hrest⟩ := List.forall_mem_cons.mp hatomic
      rw [ih hrest, getLast?_cons_or, Json.member?, hk, Assoc.find?_insert_self,
        overlay_of_isAtomic hv]
    · rw [memberValues_cons_of_ne hk] at hatomic ⊢
      rw [ih hatomic, Json.member?, Assoc.find?_insert_of_ne (Ne.symm hk), find?_membersOf]

/-- A path changes no other member than the one it starts with. -/
theorem member?_overlayAt_of_ne (h : foldKey name ≠ key) (old : Json) (path : List Step)
    (v : Json) :
    (overlayAt old (.member name :: path) v).member? key = old.member? key := by
  have hinsert (w : Json) : Assoc.find? key (Assoc.insert (foldKey name) w (membersOf old)) =
      old.member? key := by
    rw [Assoc.find?_insert_of_ne h.symm, find?_membersOf]
  cases path with
  | nil => exact hinsert _
  | cons step path => exact hinsert _

theorem member?_overlayAt_singleton (old : Json) (name : String) (v : Json) :
    (overlayAt old [.member name] v).member? (foldKey name) =
      some (overlay (old.member? (foldKey name)) v) :=
  Assoc.find?_insert_self _ _ _

theorem member?_overlayAt_cons (old : Json) (name : String) (step : Step) (path : List Step)
    (v : Json) : (overlayAt old (.member name :: step :: path) v).member? (foldKey name) =
      some (overlayAt ((old.member? (foldKey name)).getD .null) (step :: path) v) :=
  Assoc.find?_insert_self _ _ _

theorem member?_getD (o : Option Json) {below : Json} (hbelow : below.member? key = none) :
    (o.getD below).member? key = o.bind (·.member? key) := by
  cases o with
  | none => exact hbelow
  | some j => rfl

/-- What stands at a key of a section. -/
def setting? (j : Json) (name key : String) : Option Json := (j.member? name).bind (·.member? key)

/-- An entry does not touch the sections of other names. -/
theorem setting?_overlayAt_of_ne {n : String} (h : foldKey n ≠ name) (old : Json)
    (path : List Step) (v : Json) : setting? (overlayAt old (.member n :: path) v) name key =
      (entryValues name key (.member n :: path) v).getLast?.or (setting? old name key) := by
  have hnone : entryValues name key (.member n :: path) v = [] := by
    unfold entryValues
    split <;> simp_all
  rw [hnone, setting?, member?_overlayAt_of_ne h]
  rfl

/-- An entry counts at a setting if it has a value for it, and else leaves what stands there. -/
theorem setting?_overlayAt (hplace : (name, key) ∈ places) (h : Orderly path v)
    (hatomic : ∀ w ∈ entryValues name key path v, IsAtomic w) (old : Json) :
    setting? (overlayAt old path v) name key =
      (entryValues name key path v).getLast?.or (setting? old name key) := by
  cases h with
  | @outside n hn path =>
    have hname : name ∈ sections := by
      simp only [places, List.mem_cons, Prod.mk.injEq, List.not_mem_nil, or_false] at hplace
      obtain ⟨rfl, -⟩ | ⟨rfl, -⟩ | ⟨rfl, -⟩ | ⟨rfl, -⟩ := hplace <;> decide
    exact setting?_overlayAt_of_ne (fun heq => hn (heq ▸ hname)) old path v
  | table n members =>
    by_cases hn : foldKey n = name
    · subst hn
      rw [entryValues, if_pos rfl] at hatomic ⊢
      rw [setting?, member?_overlayAt_singleton, Option.bind_some, overlay,
        member?_overlayMembers hatomic, member?_getD _ rfl, setting?]
    · exact setting?_overlayAt_of_ne hn old [] _
  | key n k v =>
    by_cases hn : foldKey n = name
    · subst hn
      rw [entryValues, if_pos rfl] at hatomic ⊢
      rw [setting?, member?_overlayAt_cons, Option.bind_some, overlayAt,
        member?_overlayMembers hatomic, member?_getD _ rfl, setting?]
    · exact setting?_overlayAt_of_ne hn old [.member k] v
  | @below n k hk path v =>
    by_cases hn : foldKey n = name
    · subst hn
      have hne : foldKey k ≠ key := fun heq => hk (heq ▸ hplace)
      have hnone : entryValues (foldKey n) key (.member n :: .member k :: path) v = [] := by
        cases path with
        | nil => rw [entryValues, if_pos rfl, memberValues_cons_of_ne hne, memberValues_nil]
        | cons step path => rfl
      rw [hnone, setting?, member?_overlayAt_cons, Option.bind_some,
        member?_overlayAt_of_ne hne, member?_getD _ rfl]
      rfl
    · exact setting?_overlayAt_of_ne hn old (.member k :: path) v

/-- The sections are tables, where they are there. -/
def HasTables (j : Json) : Prop :=
  ∀ name ∈ sections, ∀ v, j.member? name = some v → ∃ members, v = .obj members

theorem exists_obj_overlayAt (old : Json) (name : String) (path : List Step) (v : Json) :
    ∃ members, overlayAt old (.member name :: path) v = .obj members := by
  cases path with
  | nil => exact ⟨_, rfl⟩
  | cons step path => exact ⟨_, rfl⟩

/-- A table laid over a table, or over nothing, is one. -/
theorem exists_obj_overlay {below : Option Json} (h : ∀ v ∈ below, ∃ members, v = .obj members)
    (members : List (String × Json)) : ∃ merged, overlay below (.obj members) = .obj merged := by
  rw [overlay]
  cases members with
  | nil =>
    rw [overlayMembers]
    cases below with
    | none => exact ⟨[], rfl⟩
    | some v => exact h v rfl
  | cons p rest => exact exists_obj_overlayMembers (List.cons_ne_nil p rest) _

theorem HasTables.overlayAt (hold : HasTables old) (h : Orderly path v) :
    HasTables (overlayAt old path v) := by
  intro name hname w hw
  have hkept {n : String} (hn : foldKey n ≠ name) (path : List Step)
      (hw : (Settings.overlayAt old (.member n :: path) v).member? name = some w) :
      ∃ members, w = .obj members := by
    rw [member?_overlayAt_of_ne hn] at hw
    exact hold name hname w hw
  cases h with
  | @outside n hn path => exact hkept (fun heq => hn (heq ▸ hname)) path hw
  | table n members =>
    by_cases hn : foldKey n = name
    · subst hn
      rw [member?_overlayAt_singleton] at hw
      obtain ⟨merged, hmerged⟩ := exists_obj_overlay (hold _ hname) members
      exact ⟨merged, (Option.some.inj hw).symm.trans hmerged⟩
    · exact hkept hn [] hw
  | key n k v =>
    by_cases hn : foldKey n = name
    · subst hn
      rw [member?_overlayAt_cons] at hw
      obtain ⟨merged, hmerged⟩ := exists_obj_overlayAt ((old.member? (foldKey n)).getD .null) k [] v
      exact ⟨merged, (Option.some.inj hw).symm.trans hmerged⟩
    · exact hkept hn [.member k] hw
  | @below n k hk path v =>
    by_cases hn : foldKey n = name
    · subst hn
      rw [member?_overlayAt_cons] at hw
      obtain ⟨merged, hmerged⟩ :=
        exists_obj_overlayAt ((old.member? (foldKey n)).getD .null) k path v
      exact ⟨merged, (Option.some.inj hw).symm.trans hmerged⟩
    · exact hkept hn (.member k :: path) hw

end Overlay

section Merging

variable {old : Json} {layer : List (String × Json)} {layers : List (List (String × Json))}
  {as : List Assignment} {name key : String}

theorem HasTables.addLayer (hold : HasTables old)
    (h : ∀ p ∈ layer, Orderly (keyPath p.1) p.2) : HasTables (addLayer old layer) := by
  induction layer generalizing old with
  | nil => exact hold
  | cons p rest ih =>
    obtain ⟨hp, hrest⟩ := List.forall_mem_cons.mp h
    exact ih (hold.overlayAt hp) hrest

theorem HasTables.addLayers (h : List.Forall₂ Assigns layers as) :
    HasTables (addLayers layers) := by
  have hfold (old : Json) (hold : HasTables old) :
      HasTables (layers.foldl Settings.addLayer old) := by
    induction h generalizing old with
    | nil => exact hold
    | cons ha _ ih => exact ih _ (hold.addLayer ha.orderly)
  exact hfold (.obj []) fun _ _ _ => nofun

/-- A layer counts at a setting if it has a value for it, and else leaves what stands there. -/
theorem setting?_addLayer (hplace : (name, key) ∈ places)
    (horderly : ∀ p ∈ layer, Orderly (keyPath p.1) p.2)
    (hatomic : ∀ w ∈ layerValues name key layer, IsAtomic w) (old : Json) :
    setting? (addLayer old layer) name key =
      (layerValues name key layer).getLast?.or (setting? old name key) := by
  induction layer generalizing old with
  | nil => rfl
  | cons p rest ih =>
    obtain ⟨hp, hrest⟩ := List.forall_mem_cons.mp horderly
    have hvalues : layerValues name key (p :: rest) =
        entryValues name key (keyPath p.1) p.2 ++ layerValues name key rest := List.flatMap_cons
    rw [hvalues] at hatomic ⊢
    obtain ⟨hentry, hlayer⟩ := List.forall_mem_append.mp hatomic
    show setting? (addLayer (overlayAt old (keyPath p.1) p.2) rest) name key = _
    rw [ih hrest hlayer, setting?_overlayAt hplace hp hentry, List.getLast?_append,
      Option.or_assoc]

/-- A value that is read as a setting is no table. -/
theorem isAtomic_of_read {α : Type} {read? : Json → Option α}
    (hread : ∀ members, read? (.obj members) = none) {values : List Json} {x : Option α}
    (h : values.map read? = (x.map some).toList) : ∀ v ∈ values, IsAtomic v := by
  rintro v hv members rfl
  have hmem := List.mem_map_of_mem (f := read?) hv
  rw [h, hread] at hmem
  cases x with
  | none => cases hmem
  | some a =>
    cases List.mem_singleton.mp (hmem : none ∈ [some a])

theorem latest_cons {α : Type} (f : Assignment → Option α) (a : Assignment)
    (as : List Assignment) : latest f (a :: as) = (latest f as).or (f a) := by
  unfold latest
  cases h : f a with
  | none => rw [List.filterMap_cons_none h, Option.or_none]
  | some x => rw [List.filterMap_cons_some h, ← getLast?_cons_or, Option.or_none]

/-- The value of the last layer that has one for a setting. -/
theorem map_setting?_addLayers {α : Type} {read? : Json → Option α} {f : Assignment → Option α}
    (hplace : (name, key) ∈ places) (hread : ∀ members, read? (.obj members) = none)
    (hassigns : ∀ layer a, Assigns layer a →
      (layerValues name key layer).map read? = ((f a).map some).toList)
    (h : List.Forall₂ Assigns layers as) :
    (setting? (addLayers layers) name key).map read? = (latest f as).map some := by
  have hfold (old : Json) (x : Option α) (hold : (setting? old name key).map read? = x.map some) :
      (setting? (layers.foldl addLayer old) name key).map read? =
        ((latest f as).or x).map some := by
    induction h generalizing old x with
    | nil => exact hold
    | @cons layer a layers as ha _ ih =>
      have hvalues := hassigns layer a ha
      have hstep : (setting? (addLayer old layer) name key).map read? = ((f a).or x).map some := by
        have hlast : (layerValues name key layer).getLast?.map read? = (f a).map some := by
          rw [← List.getLast?_map, hvalues]
          cases f a <;> rfl
        rw [setting?_addLayer hplace ha.orderly (isAtomic_of_read hread hvalues),
          Option.map_or, hlast, hold, Option.map_or]
      rw [List.foldl_cons, ih _ _ hstep, latest_cons, Option.or_assoc]
  have hall := hfold (.obj []) none rfl
  rwa [Option.or_none] at hall

theorem field_eq_of_map {α : Type} {read? : Json → Option α} {o : Option Json} {x : Option α}
    (h : o.map read? = x.map some) (key : String) (default : α) :
    field key read? default o = .ok (x.getD default) := by
  cases o with
  | none =>
    cases x with
    | none => rfl
    | some a => cases h
  | some j =>
    cases x with
    | none => cases h
    | some a =>
      have hread : read? j = some a := Option.some.inj h
      rw [field, hread]
      rfl

/-- The fields of a section that is a table, or is not there. -/
theorem fields_eq {j : Json} (hj : HasTables j) (hname : name ∈ sections) (keys : List String) :
    fields name keys (j.member? name) = .ok (keys.map (setting? j name)) := by
  unfold setting?
  cases hmember : j.member? name with
  | none => rfl
  | some v =>
    obtain ⟨members, rfl⟩ := hj name hname v hmember
    rfl

theorem map_format?_of_named? {o : Option Json} {x : Option OutputFormat}
    (h : o.map named? = x.map some) : o.map format? = x.map some := by
  cases o with
  | none => exact h
  | some v =>
    rw [← h, Option.map_some, Option.map_some]
    cases v with
    | str s => rfl
    | _ =>
      cases x with
      | none => cases h
      | some f => cases h

/-- Each setting has the value of the last layer that assigns it, whatever the layers assign
otherwise. -/
theorem ofJson_addLayers (h : List.Forall₂ Assigns layers as) :
    ofJson (addLayers layers) = .ok (settle as) := by
  have htables := HasTables.addLayers h
  have hpath := map_setting?_addLayers (by decide) (fun _ => rfl) (fun _ _ ha => ha.path) h
  have hformat := map_format?_of_named?
    (map_setting?_addLayers (by decide) (fun _ => rfl) (fun _ _ ha => ha.outputFormat) h)
  have hwrites := map_setting?_addLayers (by decide) (fun _ => rfl)
    (fun _ _ ha => ha.atomicWrites) h
  have hcase := map_setting?_addLayers (by decide) (fun _ => rfl) (fun _ _ ha => ha.strictCase) h
  rw [ofJson, fields_eq htables (by decide), fields_eq htables (by decide)]
  simp only [Except.ok_bind, List.map_cons, List.map_nil, List.getElem?_cons_zero,
    List.getElem?_cons_succ, Option.join_some, field_eq_of_map hpath, field_eq_of_map hformat,
    field_eq_of_map hwrites, field_eq_of_map hcase]
  rfl

end Merging

end EntityStore.Settings
