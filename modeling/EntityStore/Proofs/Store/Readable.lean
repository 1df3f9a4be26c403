import EntityStore.Proofs.Json.RoundTrip
import EntityStore.Proofs.Store.Projection
import EntityStore.Proofs.Store.Proper

/-! Record files read back: in either format a record is read as it was written, if its text does
not go too deep for the reader. -/
namespace EntityStore.Store

variable {s : Store} {t : Tree} {e : Entity}

section Encode

/-- A record is read back from either format, or from none if it goes too deep. -/
theorem parseMembers?_encode_eq (s : Store) {r : Record}
    (hregular : (Json.obj r).every Json.isRegular = true)
    (hexact : (Json.obj r).every Json.isExact = true) :
    Json.parseMembers? (s.encode r) =
      if (Json.obj r).nesting ≤ Json.Reader.maxDepth then some r else none := by
  unfold encode Json.pretty Json.compact
  cases s.options.outputFormat with
  | pretty => exact Json.parseMembers?_write Json.Layout.blank_pretty hregular hexact
  | compact => exact Json.parseMembers?_write Json.Layout.blank_compact hregular hexact

/-- A record of at most 127 levels, all of whose floats are read back from their own texts, is read
back from the text that a store writes for it, in either format. -/
theorem parseMembers?_encode (s : Store) (r : Record)
    (hregular : (Json.obj r).every Json.isRegular = true)
    (hexact : (Json.obj r).every Json.isExact = true) (hdepth : (Json.obj r).nesting ≤ 127) :
    Json.parseMembers? (s.encode r) = some r := by
  rw [parseMembers?_encode_eq s hregular hexact]
  exact if_pos hdepth

/-- A record with an integer at each end of the 64-bit ranges, a float, empty containers, and
characters that are escaped in texts. -/
def varied : Record := [
  ("", .arr []), ("\"\\\x08\x0c\n\r\t\x01\x7f/é𝄞", .str "\u2028\x1f"),
  ("a", .arr [.int (-9223372036854775808), .int 18446744073709551615, .float (.ofRatio true 1 10)]),
  ("b", .obj [("c", .obj []), ("d", .arr [.null, .bool true, .bool false])])]

theorem parseMembers?_encode_varied :
    Json.parseMembers? (encode ⟨[], ".", {}⟩ varied) = some varied ∧
      Json.parseMembers? (encode ⟨[], ".", { outputFormat := .compact }⟩ varied) = some varied := by
  have hregular : (Json.obj varied).every Json.isRegular = true := by decide +kernel
  have hexact : (Json.obj varied).every Json.isExact = true := by decide +kernel
  have hdepth : (Json.obj varied).nesting ≤ 127 := by decide
  exact ⟨parseMembers?_encode _ varied hregular hexact hdepth,
    parseMembers?_encode _ varied hregular hexact hdepth⟩

end Encode

section Save

/-- An entity is read back from its file: by its id, and by scans of its kind, which fail for other
files only. -/
structure Readable (s : Store) (t : Tree) (e : Entity) : Prop where
  found : s.get t e.id (some e.kind) = .ok (some e)
  listed : (∃ es, s.list t e.kind = .ok es) ↔ ∀ name ∈ s.recordNames t e.kind,
    name ≠ fileName e.id → ∃ f, s.readRecord t e.kind name = .ok f

/-- The file of an entity is damaged: looking it up fails, and so do scans of its kind. -/
structure Damaged (s : Store) (t : Tree) (e : Entity) : Prop where
  found : s.get t e.id (some e.kind) =
    .error (.corrupt (s.fileText e.kind (fileName e.id)) .notAnObject)
  listed : ∀ es, s.list t e.kind ≠ .ok es

theorem readable_of_found (hfound : s.get t e.id (some e.kind) = .ok (some e)) :
    s.Readable t e := by
  have hread : s.readRecord t e.kind (fileName e.id) = .ok e :=
    readRecord_eq_ok_iff.mpr (get_eq_some_iff.mp hfound)
  refine ⟨hfound, ?_⟩
  unfold list
  rw [Except.exists_mapM_eq_ok_iff]
  constructor
  · intro h name hname _
    exact h name hname
  · intro h name hname
    by_cases hself : name = fileName e.id
    · exact ⟨e, hself ▸ hread⟩
    · exact h name hname hself

theorem damaged_of_node? (ht : t.Proper) (he : e.WellFormed) {text : String}
    (hnode : t.node? (s.recordPath e.kind e.id) = some (.file (.text text)))
    (hparse : Json.parseMembers? text = none) : s.Damaged t e := by
  have hcontains : s.contains t e.kind e.id = true :=
    Bool.and_eq_true_iff.mpr ⟨he.id_valid, Tree.isFile_iff.mpr ⟨_, hnode⟩⟩
  have htext := Tree.readText_eq_ok_iff.mpr hnode
  unfold recordPath at htext
  have hread : s.readRecord t e.kind (fileName e.id) =
      .error (.corrupt (s.fileText e.kind (fileName e.id)) .notAnObject) := by
    unfold readRecord
    simp [htext, hparse]
  refine ⟨?_, fun es hes => ?_⟩
  · rw [get_of_kind, if_pos hcontains, hread]
    rfl
  · have hname : fileName e.id ∈ s.recordNames t e.kind :=
      (mem_recordNames_iff ht).mpr (contains_iff_eligible.mp hcontains).2
    unfold list at hes
    obtain ⟨f, hf⟩ := Except.exists_mapM_eq_ok_iff.mp ⟨es, hes⟩ _ hname
    rw [hread] at hf
    cases hf

/-- The record of an entity is regular and exact where its attributes are. -/
theorem every_toJson {p : Json → Bool} (hobj : p e.toJson = true) (hstr : ∀ s, p (.str s) = true)
    (h : ∀ a ∈ e.attributes, a.2.toJson.every p = true) : e.toJson.every p = true := by
  refine Json.every_obj_iff.mpr ⟨hobj, fun m hm => ?_⟩
  unfold Entity.toRecord at hm
  rcases Assoc.mem_insert hm with rfl | hm
  · exact hstr e.id
  rcases Assoc.mem_insert hm with rfl | hm
  · exact hstr e.kind.name
  obtain ⟨a, ha, rfl⟩ := List.mem_map.mp hm
  exact h a ha

/-- The record of an entity is read back, or from no text if it goes too deep. -/
theorem parseMembers?_encode_toRecord (s : Store)
    (hregular : e.toJson.every Json.isRegular = true)
    (hexact : e.toJson.every Json.isExact = true) :
    Json.parseMembers? (s.encode e.toRecord) =
      if e.toJson.nesting ≤ Json.Reader.maxDepth then some e.toRecord else none :=
  parseMembers?_encode_eq s hregular hexact

theorem node?_save {overwrite : Bool} (h : (s.save t e overwrite).2 = .ok ()) :
    (s.save t e overwrite).1.node? (s.recordPath e.kind e.id) =
      some (.file (.text (s.encode e.toRecord))) := by
  have hlast : lastOf? e.kind e.id [e] = some e := by simp [lastOf?]
  exact (saved_of_saveAll h).record e.kind e.id e hlast

theorem Readable.unique {f : Entity} (he : s.Readable t e) (hid : f.id = e.id)
    (hkind : f.kind = e.kind) (hf : s.Readable t f) : f = e := by
  have hfound := hf.found
  rw [hid, hkind, he.found, Except.ok.injEq, Option.some.injEq] at hfound
  exact hfound.symm

/-- An entity that is saved, and whose floats are read back from their own texts, is read back, with
the instants that clocks show for its own, if its record has at most as many levels as the reader
takes. So it is read back as it was exactly if clocks show its instants. If the record has more
levels, its file is damaged. -/
theorem readable_or_damaged (s : Store) (t : Tree) (ht : t.Proper) (e : Entity) (he : e.Reachable)
    (overwrite : Bool) (hregular : ∀ a ∈ e.attributes, a.2.toJson.every Json.isRegular = true)
    (hexact : ∀ a ∈ e.attributes, a.2.toJson.every Json.isExact = true)
    (h : (s.save t e overwrite).2 = .ok ()) :
    if e.toJson.nesting ≤ Json.Reader.maxDepth then
      s.Readable (s.save t e overwrite).1 e.carried ∧
        (s.Readable (s.save t e overwrite).1 e ↔ e.OnClock)
    else s.Damaged (s.save t e overwrite).1 e := by
  have hwell := he.wellFormed
  have hsorted : e.toJson.isRegular = true := decide_eq_true hwell.sorted_toRecord
  have hparse := parseMembers?_encode_toRecord s (every_toJson hsorted (fun _ => rfl) hregular)
    (every_toJson rfl (fun _ => rfl) hexact)
  have hnode := node?_save h
  split_ifs with hdepth
  · rw [if_pos hdepth] at hparse
    have hread : s.Readable (s.save t e overwrite).1 e.carried :=
      readable_of_found (get_of_node? hwell hnode hparse)
    refine ⟨hread, fun h => ?_, fun hclock => ?_⟩
    · exact Entity.carried_eq_self_iff.mp (hread.unique (f := e) rfl rfl h).symm
    · rwa [Entity.carried_eq_self_iff.mpr hclock] at hread
  · rw [if_neg hdepth] at hparse
    exact damaged_of_node? (proper_saveAll ht s [e] overwrite) hwell hnode hparse

/-- A device whose one network interface has the given JSON value. -/
def deviceWith (j : Json) : Entity :=
  ⟨"cd613e30-d8f1-4adf-91b7-584a2265b1f5", .device, [("network_interfaces", .list [j])]⟩

theorem reachable_deviceWith (j : Json) : (deviceWith j).Reachable := by
  have hid : some "cd613e30-d8f1-4adf-91b7-584a2265b1f5" = none →
      Id.isUuid4 "".toList = true := nofun
  have hconstruct : Entity.construct .device (some "cd613e30-d8f1-4adf-91b7-584a2265b1f5") ""
      [("network_interfaces", .list [j])] = .ok (deviceWith j, []) := rfl
  exact .construct hid hconstruct

theorem readable_deviceWith :
    Readable ⟨[], ".", {}⟩
      (save ⟨[], ".", {}⟩ .empty (deviceWith (.obj [("mtu", .int 1500)])) false).1
      (deviceWith (.obj [("mtu", .int 1500)])) := by
  have hregular : ∀ a ∈ (deviceWith (.obj [("mtu", .int 1500)])).attributes,
      a.2.toJson.every Json.isRegular = true := by decide +kernel
  have hexact : ∀ a ∈ (deviceWith (.obj [("mtu", .int 1500)])).attributes,
      a.2.toJson.every Json.isExact = true := by decide +kernel
  have h := readable_or_damaged ⟨[], ".", {}⟩ .empty (by decide)
    (deviceWith (.obj [("mtu", .int 1500)])) (reachable_deviceWith _) false hregular hexact
    (by decide +kernel)
  rw [if_pos (by decide)] at h
  exact h.2.mpr (by decide)

/-- Arrays in one another. -/
def tower : Nat → Json
  | 0 => .arr []
  | n + 1 => .arr [tower n]

/-- A float that is not read back from its text. -/
def elusive : Binary64 := Numeral.ofScientific false 5999999999999999 31

/-- What is saved is not always read back: a float may come back as another one, and the file of an
entity that goes too deep is damaged. -/
theorem not_save_readable :
    (∃ e, e.Reachable ∧ (save ⟨[], ".", {}⟩ .empty e false).2 = .ok () ∧
      ∃ f, get ⟨[], ".", {}⟩ (save ⟨[], ".", {}⟩ .empty e false).1 e.id (some e.kind) =
        .ok (some f) ∧ f.same e = false) ∧
    ∃ e, e.Reachable ∧ (save ⟨[], ".", {}⟩ .empty e false).2 = .ok () ∧
      Damaged ⟨[], ".", {}⟩ (save ⟨[], ".", {}⟩ .empty e false).1 e := by
  constructor
  · refine ⟨deviceWith (.float elusive), reachable_deviceWith _, by decide +kernel, ?_⟩
    have hfound : ((get ⟨[], ".", {}⟩
          (save ⟨[], ".", {}⟩ .empty (deviceWith (.float elusive)) false).1
          (deviceWith (.float elusive)).id (some .device)).toOption.join.any
        fun f => !f.same (deviceWith (.float elusive))) = true := by decide +kernel
    obtain ⟨f, hf, hother⟩ := (Option.any_eq_true _ _).mp hfound
    have hget := Except.toOption_eq_some_iff.mp (Option.join_eq_some_iff.mp hf)
    exact ⟨f, hget, by simpa using hother⟩
  · have hsaved : (save ⟨[], ".", {}⟩ .empty (deviceWith (tower 125)) false).2 = .ok () := by
      decide +kernel
    have hregular : (deviceWith (tower 125)).toJson.every Json.isRegular = true := by
      decide +kernel
    have hexact : (deviceWith (tower 125)).toJson.every Json.isExact = true := by
      decide +kernel
    have hdepth : ¬ (deviceWith (tower 125)).toJson.nesting ≤ Json.Reader.maxDepth := by
      decide +kernel
    have hunread := parseMembers?_encode_toRecord ⟨[], ".", {}⟩ hregular hexact
    rw [if_neg hdepth] at hunread
    have hproper : (save ⟨[], ".", {}⟩ .empty (deviceWith (tower 125)) false).1.Proper :=
      proper_saveAll (by decide) _ _ _
    exact ⟨deviceWith (tower 125), reachable_deviceWith _, hsaved,
      damaged_of_node? hproper (reachable_deviceWith _).wellFormed (node?_save hsaved) hunread⟩

end Save

end EntityStore.Store
