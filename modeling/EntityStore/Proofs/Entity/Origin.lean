import EntityStore.Proofs.Entity.Normal
import EntityStore.Proofs.Entity.RoundTrip

/-! Where entities come from, and what holds of them from then on. -/
namespace EntityStore

theorem Kind.ofName?_eq_some_iff {name : String} {k : Kind} :
    Kind.ofName? name = some k ↔ name = k.name := by
  constructor
  · intro h
    unfold Kind.ofName? at h
    have hname := List.find?_some h
    exact (beq_iff_eq.mp hname).symm
  · rintro rfl
    exact Kind.ofName?_name k

theorem Kind.resolve_eq_ok_iff {name : String} {k : Kind} :
    Kind.resolve name = .ok k ↔ name = k.name := by
  rw [← Kind.ofName?_eq_some_iff]
  unfold Kind.resolve
  cases Kind.ofName? name <;> simp

theorem Kind.ne_idField_of_mem_attributes {k : Kind} {a : Attribute} (ha : a ∈ k.attributes) :
    a.name ≠ idField := by
  revert a
  cases k <;> decide

theorem Kind.ne_kindField_of_mem_attributes {k : Kind} {a : Attribute} (ha : a ∈ k.attributes) :
    a.name ≠ kindField := by
  revert a
  cases k <;> decide

namespace Entity

/-- A record decodes to what its kind constructs from its id and its attributes. -/
theorem ofRecord_eq_ok_iff {r : Record} {e : Entity} :
    ofRecord r = .ok e ↔ ∃ k id attributes ds,
      Assoc.find? kindField r = some (.str (Kind.name k)) ∧
        Assoc.find? idField r = some (.str id) ∧ readAttributes k r = .ok attributes ∧
          construct k (some id) "" attributes = .ok (e, ds) := by
  constructor
  · intro h
    unfold ofRecord at h
    split at h
    next name hkind =>
      obtain ⟨k, hk, h⟩ := Except.bind_eq_ok_iff.mp h
      cases hof : ofRecordOf k r with
      | error err => simp [hof] at h
      | ok f =>
        rw [hof, Except.mapError_ok, Except.ok.injEq] at h
        unfold ofRecordOf at hof
        split at hof
        next id hid =>
          obtain ⟨attributes, hread, hof⟩ := Except.bind_eq_ok_iff.mp hof
          obtain ⟨⟨g, ds⟩, hconstruct, hg⟩ := Except.bind_eq_ok_iff.mp hof
          have hge : g = e := (Except.ok.inj hg).trans h
          rw [Kind.resolve_eq_ok_iff.mp hk] at hkind
          exact ⟨k, id, attributes, ds, hkind, hid, hread, hge ▸ hconstruct⟩
        next => cases hof
    next => cases h
  · rintro ⟨k, id, attributes, ds, hkind, hid, hread, hconstruct⟩
    simp [ofRecord, ofRecordOf, hkind, hid, Kind.resolve_name, hread, hconstruct]

theorem WellFormed.ofRecord {r : Record} {e : Entity} (h : ofRecord r = .ok e) :
    e.WellFormed := by
  obtain ⟨k, id, attributes, ds, -, -, -, hconstruct⟩ := ofRecord_eq_ok_iff.mp h
  refine .construct ?_ hconstruct
  exact nofun

theorem onClock_of_ofRecord {r : Record} {e : Entity} (h : ofRecord r = .ok e) : e.OnClock := by
  obtain ⟨k, id, attributes, ds, -, -, hread, hconstruct⟩ := ofRecord_eq_ok_iff.mp h
  exact .construct (onClock_of_readAttributes hread) hconstruct

theorem kind_set {e f : Entity} {name : String} {v : Value} {ds : List CaseDiagnostic}
    (h : e.set name v = .ok (f, ds)) : f.kind = e.kind := by
  obtain ⟨a, w, -, -, rfl⟩ := set_eq_ok_iff.mp h
  rfl

theorem kind_setAll {e f : Entity} {attributes : List (String × Value)}
    {ds : List CaseDiagnostic} (h : e.setAll attributes = .ok (f, ds)) : f.kind = e.kind := by
  induction attributes generalizing e ds with
  | nil =>
    cases h
    rfl
  | cons p rest ih =>
    obtain ⟨name, v⟩ := p
    simp only [setAll, Except.bind_eq_ok_iff, Prod.exists] at h
    obtain ⟨g, ds₁, hset, g', ds₂, hrest, hout⟩ := h
    cases hout
    exact (ih hrest).trans (kind_set hset)

theorem kind_construct {kind : Kind} {id : Option String} {uuid : String}
    {attributes : List (String × Value)} {e : Entity} {ds : List CaseDiagnostic}
    (h : construct kind id uuid attributes = .ok (e, ds)) : e.kind = kind := by
  obtain ⟨-, hset, -⟩ := construct_eq_ok_iff.mp h
  exact kind_setAll hset

theorem kind_change (e : Entity) (c : Change) : (e.change c).kind = e.kind := by
  rcases change_cases e c with hsame | ⟨name, v, ds, h⟩ | ⟨name, old, h⟩ | ⟨id, h⟩
  · rw [hsame]
  · exact kind_set h
  · obtain ⟨a, -, -, heq, -⟩ := unset_eq_ok_iff.mp h
    rw [heq]
  · obtain ⟨-, heq⟩ := setId_eq_ok_iff.mp h
    rw [heq]

theorem kind_changeAll (e : Entity) (changes : List Change) :
    (e.changeAll changes).kind = e.kind := by
  induction changes generalizing e with
  | nil => rfl
  | cons c cs ih =>
    show ((e.change c).changeAll cs).kind = e.kind
    rw [ih, kind_change]

/-- How an entity of a kind comes to be: it is constructed, with an id that is given or around a
generated UUID, or decoded from a record of the kind. -/
inductive Origin (kind : Kind) : Entity → Prop
  | construct {id : Option String} {uuid : String} {attributes : List (String × Value)}
      {e : Entity} {ds : List CaseDiagnostic}
      (hu : id = none → Id.isUuid4 uuid.toList = true)
      (h : construct kind id uuid attributes = .ok (e, ds)) : Origin kind e
  | ofRecord {r : Record} {e : Entity} (hk : Assoc.find? kindField r = some (.str kind.name))
      (h : ofRecord r = .ok e) : Origin kind e

/-- A record of a kind is constructed as one of this kind. -/
theorem Origin.exists_construct {kind : Kind} {e : Entity} (h : Origin kind e) :
    ∃ id uuid attributes ds, (id = none → Id.isUuid4 uuid.toList = true) ∧
      Entity.construct kind id uuid attributes = .ok (e, ds) := by
  cases h with
  | construct hu h => exact ⟨_, _, _, _, hu, h⟩
  | ofRecord hk h =>
    obtain ⟨k, id, attributes, ds, hkind, -, -, hconstruct⟩ := ofRecord_eq_ok_iff.mp h
    have hname : k.name = kind.name := by
      rw [hk, Option.some.injEq, Json.str.injEq] at hkind
      exact hkind.symm
    cases Kind.name_injective hname
    exact ⟨some id, "", attributes, ds, nofun, hconstruct⟩

theorem Origin.reachable {kind : Kind} {e : Entity} (h : Origin kind e) : e.Reachable := by
  obtain ⟨id, uuid, attributes, ds, hu, hconstruct⟩ := h.exists_construct
  exact .construct hu hconstruct

theorem Origin.kind_eq {kind : Kind} {e : Entity} (h : Origin kind e) : e.kind = kind := by
  obtain ⟨id, uuid, attributes, ds, -, hconstruct⟩ := h.exists_construct
  exact kind_construct hconstruct

/-- What holds of an entity of a kind in every state. -/
structure Lawful (kind : Kind) (e : Entity) : Prop where
  kind_eq : e.kind = kind
  id_valid : Id.validate kind e.id = .ok ()
  declared : ∀ p ∈ e.attributes, p.1 ≠ idField ∧ p.1 ≠ kindField ∧
    ∃ a ∈ kind.attributes, a.name = p.1 ∧ (∃ ds, p.2.validate a = .ok (p.2, ds)) ∧
      p.2.Normal a.type
  complete : ∀ a ∈ kind.attributes, a.required = true → ∃ v, e.get? a.name = some v

theorem Lawful.normal_of_get? {kind : Kind} {e : Entity} {a : Attribute} {v : Value}
    (h : e.Lawful kind) (ha : a ∈ kind.attributes) (hv : e.get? a.name = some v) :
    v.Normal a.type := by
  obtain ⟨-, -, b, hb, hname, -, hnormal⟩ := h.declared (a.name, v) (Assoc.mem_of_find? hv)
  have hself : kind.attribute? a.name = some a := Kind.attribute?_eq_some_iff.mpr ⟨ha, rfl⟩
  have hother : kind.attribute? a.name = some b := Kind.attribute?_eq_some_iff.mpr ⟨hb, hname⟩
  have hsame : b = a := Option.some.inj (hother.symm.trans hself)
  exact hsame ▸ hnormal

theorem WellFormed.lawful {e : Entity} (he : e.WellFormed) : e.Lawful e.kind := by
  refine ⟨rfl, Id.validate_eq_ok_iff.mpr he.id_valid, ?_, ?_⟩
  · intro p hp
    obtain ⟨a, ha, hv⟩ := he.stored p hp
    obtain ⟨hid, hkind, hdecl⟩ := declaration_eq_ok_iff.mp ha
    obtain ⟨hmem, hname⟩ := Kind.attribute?_eq_some_iff.mp hdecl
    exact ⟨hid, hkind, a, hmem, hname, hv, Value.stored_iff_normal.mp hv⟩
  · intro a ha hreq
    have hcontains := missing?_eq_none_iff.mp he.complete a ha hreq
    exact Option.isSome_iff_exists.mp hcontains

/-- Whatever is done to an entity, refused changes included, it stays of its kind, with a valid id,
normal forms for declared attributes only, and every required attribute. -/
theorem Origin.lawful_changeAll {kind : Kind} {e : Entity} (h : Origin kind e)
    (changes : List Change) : (e.changeAll changes).Lawful kind := by
  have hwell := h.reachable.wellFormed.changeAll changes
  have hkind : (e.changeAll changes).kind = kind := (kind_changeAll e changes).trans h.kind_eq
  exact hkind ▸ hwell.lawful

/-- The attributes of an edge, with an option in another letter case. -/
def edge : List (String × Value) := [
  ("subject_id", .string "a"), ("relationship_type", .string "contains"),
  ("object_id", .string "b"), ("privileges", .list [.str "read"])]

/-- Changes of an edge: all but the first and the last are refused. -/
def edgeChanges : List Change := [
  .set "relationship_type" (.string "PROVIDES"), .unset "object_id", .set "kind" (.string "Data"),
  .set "privileges" (.list [.str "write", .int 1]),
  .setId "6e2f0f2d-bd49-4ed5-b3ab-4e5d8c1a1c05", .unset "privileges"]

theorem lawful_edgeChanges :
    ∃ e ds, Entity.construct .relationship none "6e2f0f2d-bd49-4ed5-b3ab-4e5d8c1a1c05" edge =
        .ok (e, ds) ∧
      e.changeAll edgeChanges = ⟨e.id, .relationship, [("object_id", .string "b"),
        ("relationship_type", .string "PROVIDES"), ("subject_id", .string "a")]⟩ ∧
      (e.changeAll edgeChanges).Lawful .relationship := by
  obtain ⟨e, ds, h, hchanged⟩ : ∃ e ds, Entity.construct .relationship none
        "6e2f0f2d-bd49-4ed5-b3ab-4e5d8c1a1c05" edge = .ok (e, ds) ∧
      e.changeAll edgeChanges = ⟨e.id, .relationship, [("object_id", .string "b"),
        ("relationship_type", .string "PROVIDES"), ("subject_id", .string "a")]⟩ :=
    ⟨_, _, rfl, rfl⟩
  have horigin : Origin .relationship e := .construct (fun _ => by decide) h
  exact ⟨e, ds, h, hchanged, horigin.lawful_changeAll edgeChanges⟩

end Entity

end EntityStore
