import EntityStore.Entity.Record
import EntityStore.Proofs.Entity.Clock

/-! Records read back: the record of an entity decodes to this entity, if clocks show its instants,
and otherwise to the one with the instants that they show. -/
namespace EntityStore

theorem Kind.resolve_name (k : Kind) : Kind.resolve k.name = .ok k := by
  rw [Kind.resolve, Kind.ofName?_name]

namespace Entity

/-- The id and the kind hide attributes of their names. -/
theorem find?_toRecord (e : Entity) (key : String) : Assoc.find? key e.toRecord =
    if key = idField then some (.str e.id)
    else if key = kindField then some (.str e.kind.name)
    else (e.get? key).map Value.toJson := by
  unfold toRecord get?
  split_ifs with hid hkind
  · rw [hid, Assoc.find?_insert_self]
  · rw [Assoc.find?_insert_of_ne hid, hkind, Assoc.find?_insert_self]
  · rw [Assoc.find?_insert_of_ne hid, Assoc.find?_insert_of_ne hkind]
    exact Assoc.find?_map Value.toJson key e.attributes

theorem find?_idField_toRecord (e : Entity) :
    Assoc.find? idField e.toRecord = some (.str e.id) := by
  rw [find?_toRecord, if_pos rfl]

theorem find?_kindField_toRecord (e : Entity) :
    Assoc.find? kindField e.toRecord = some (.str e.kind.name) := by
  have hne : kindField ≠ idField := by decide
  rw [find?_toRecord, if_neg hne, if_pos rfl]

theorem WellFormed.sorted_toRecord {e : Entity} (he : e.WellFormed) : Assoc.Sorted e.toRecord := by
  have hattributes : Assoc.Sorted (e.attributes.map fun p => (p.1, p.2.toJson)) := he.sorted.map _
  unfold toRecord
  exact (hattributes.insert _ _).insert _ _

/-- The id and the kind of a record are not read as attributes. -/
theorem readAttributes_insert {name : String} (hn : name = idField ∨ name = kindField)
    (kind : Kind) (j : Json) (r : Record) :
    readAttributes kind (Assoc.insert name j r) = readAttributes kind r := by
  induction r with
  | nil => simp [Assoc.insert, readAttributes, hn]
  | cons p rest ih =>
    obtain ⟨other, k⟩ := p
    rw [Assoc.insert]
    split_ifs with heq hlt
    · subst heq
      simp [readAttributes, hn]
    · rw [readAttributes, if_pos hn]
    · simp only [readAttributes, ih]

/-- Attributes as they are stored are read back from their JSON forms, as clocks show them. -/
theorem readAttributes_map_toJson {e : Entity} {attributes : List (String × Value)}
    (h : ∀ p ∈ attributes, ∃ a, e.declaration p.1 = .ok a ∧ p.2.Stored a) :
    readAttributes e.kind (attributes.map fun p => (p.1, p.2.toJson)) =
      .ok (attributes.map fun p => (p.1, p.2.carried)) := by
  induction attributes with
  | nil => rfl
  | cons p rest ih =>
    obtain ⟨name, v⟩ := p
    obtain ⟨a, ha, ds, hv⟩ := h (name, v) List.mem_cons_self
    obtain ⟨hid, hkind, hdecl⟩ := declaration_eq_ok_iff.mp ha
    have hrest := ih fun p hp => h p (List.mem_cons_of_mem _ hp)
    simp [readAttributes, hid, hkind, hdecl, Value.ofJson_toJson hv, hrest]

/-- An attribute, as it is given and as it is stored. -/
def Stores (e : Entity) (p q : String × Value) : Prop :=
  q.1 = p.1 ∧ ∃ a ds, e.declaration p.1 = .ok a ∧ p.2.validate a = .ok (q.2, ds)

theorem setAll_cons {e f g : Entity} {name : String} {v : Value} {rest : List (String × Value)}
    {ds more : List CaseDiagnostic}
    (h : e.set name v = .ok (f, ds)) (hrest : f.setAll rest = .ok (g, more)) :
    e.setAll ((name, v) :: rest) = .ok (g, ds ++ more) := by
  rw [setAll, h, Except.ok_bind]
  simp only [hrest, Except.ok_bind, Except.pure_eq_ok]

/-- Attributes whose names come in order are put behind those that are there. -/
theorem setAll_eq_ok_iff {e f : Entity} {attributes : List (String × Value)}
    (hs : (e.attributes.map Prod.fst ++ attributes.map Prod.fst).Pairwise (· < ·)) :
    (∃ ds, e.setAll attributes = .ok (f, ds)) ↔ ∃ stored,
      List.Forall₂ e.Stores attributes stored ∧
        f = { e with attributes := e.attributes ++ stored } := by
  induction attributes generalizing e f with
  | nil =>
    constructor
    · rintro ⟨ds, h⟩
      cases h
      exact ⟨[], .nil, by rw [List.append_nil]⟩
    · rintro ⟨stored, hstored, rfl⟩
      cases hstored
      exact ⟨[], by rw [List.append_nil, setAll]⟩
  | cons p rest ih =>
    obtain ⟨name, v⟩ := p
    have hlast (w : Value) : Assoc.insert name w e.attributes = e.attributes ++ [(name, w)] :=
      Assoc.insert_eq_append fun q hq => (List.pairwise_append.mp hs).2.2 q.1
        (List.mem_map_of_mem hq) name List.mem_cons_self
    have hmore (w : Value) : ((e.attributes ++ [(name, w)]).map Prod.fst ++
        rest.map Prod.fst).Pairwise (· < ·) := by
      rw [List.map_append, List.append_assoc]
      exact hs
    simp only [setAll, Except.bind_eq_ok_iff, Prod.exists, Except.pure_eq_ok, Except.ok.injEq,
      Prod.mk.injEq]
    constructor
    · rintro ⟨_, g, ds, hset, f, more, hrest, rfl, -⟩
      obtain ⟨a, w, ha, hv, rfl⟩ := set_eq_ok_iff.mp hset
      rw [hlast] at hrest
      obtain ⟨stored, hstored, rfl⟩ := (ih (hmore w)).mp ⟨more, hrest⟩
      refine ⟨(name, w) :: stored, .cons ⟨rfl, a, ds, ha, hv⟩ hstored, ?_⟩
      rw [List.append_assoc]
      rfl
    · rintro ⟨_, hall, rfl⟩
      cases hall with
      | @cons _ q _ stored hq hstored =>
        obtain ⟨other, w⟩ := q
        obtain ⟨rfl, a, ds, ha, hv⟩ := hq
        have hset := set_eq_ok_iff.mpr ⟨a, w, ha, hv, rfl⟩
        rw [hlast] at hset
        obtain ⟨more, hrest⟩ := (ih (e := { e with attributes := e.attributes ++ [(other, w)] })
          (hmore w)).mpr ⟨stored, hstored, rfl⟩
        refine ⟨_, _, _, hset, _, more, hrest, ?_, rfl⟩
        rw [List.append_assoc]
        rfl

/-- Attributes as they are stored are set as they are, when their names come in order. -/
theorem setAll_of_stored {e : Entity} {attributes : List (String × Value)}
    (hs : Assoc.Sorted (e.attributes ++ attributes))
    (h : ∀ p ∈ attributes, ∃ a, e.declaration p.1 = .ok a ∧ p.2.Stored a) :
    ∃ ds, e.setAll attributes =
      .ok ({ e with attributes := e.attributes ++ attributes }, ds) := by
  have hkeys : (e.attributes.map Prod.fst ++ attributes.map Prod.fst).Pairwise (· < ·) := by
    rw [← List.map_append]
    exact List.pairwise_map.mpr hs
  refine (setAll_eq_ok_iff hkeys).mpr ⟨attributes, List.forall₂_same.mpr fun p hp => ?_, rfl⟩
  obtain ⟨a, ha, ds, hv⟩ := h p hp
  exact ⟨rfl, a, ds, ha, hv⟩

/-- The record of a well formed entity decodes to it, as clocks show it. -/
theorem WellFormed.ofRecord_toRecord {e : Entity} (he : e.WellFormed) :
    ofRecord e.toRecord = .ok e.carried := by
  have hread : readAttributes e.kind e.toRecord = .ok e.carried.attributes := by
    rw [toRecord, readAttributes_insert (.inl rfl), readAttributes_insert (.inr rfl)]
    exact readAttributes_map_toJson he.stored
  have hcarried := he.carried
  obtain ⟨ds, hset⟩ := setAll_of_stored (e := ⟨e.id, e.kind, []⟩) hcarried.sorted hcarried.stored
  have hconstruct : Entity.construct e.kind (some e.id) "" e.carried.attributes =
      .ok (e.carried, ds) :=
    construct_eq_ok_iff.mpr
      ⟨fun _ h => Option.mem_some.mp h ▸ he.id_valid, hset, hcarried.complete⟩
  simp [ofRecord, ofRecordOf, find?_kindField_toRecord, find?_idField_toRecord,
    Kind.resolve_name, hread, hconstruct]

/-- The record of a well formed entity decodes to it exactly if clocks show its instants. -/
theorem WellFormed.ofRecord_toRecord_iff {e : Entity} (he : e.WellFormed) :
    ofRecord e.toRecord = .ok e ↔ e.OnClock := by
  rw [he.ofRecord_toRecord, Except.ok.injEq, carried_eq_self_iff]

end Entity

end EntityStore
