import EntityStore.Entity.Record
import EntityStore.Proofs.Entity.Invariant

/-! Entities whose instants clocks show. Those that are read from texts are among them. -/
namespace EntityStore

/-- Only texts are read as instants, and they denote what clocks show. -/
theorem Value.onClock_of_ofJson {a : Attribute} {j : Json} {v : Value}
    (h : ofJson a j = .ok v) : v.OnClock := by
  unfold ofJson at h
  split at h
  case h_7 =>
    obtain ⟨t, ht, rfl⟩ := Option.map_eq_some_iff.mp (Except.elim_eq_ok_iff.mp h)
    exact (Timestamp.parse?_eq_some_iff.mp ht).onClock
  case h_4 | h_8 =>
    obtain ⟨n, -, rfl⟩ := Option.map_eq_some_iff.mp (Except.elim_eq_ok_iff.mp h)
    trivial
  all_goals cases h <;> trivial

namespace Entity

variable {e f : Entity} {attributes : List (String × Value)} {ds : List CaseDiagnostic}

/-- Whether clocks show each instant among the attributes. -/
def OnClock (e : Entity) : Prop := ∀ p ∈ e.attributes, p.2.OnClock

instance (e : Entity) : Decidable e.OnClock :=
  inferInstanceAs (Decidable (∀ p ∈ e.attributes, p.2.OnClock))

/-- The entity with the instants that clocks show for its own. -/
def carried (e : Entity) : Entity :=
  { e with attributes := e.attributes.map fun (name, v) => (name, v.carried) }

theorem carried_eq_self_iff : e.carried = e ↔ e.OnClock := by
  obtain ⟨i, kind, attributes⟩ := e
  have hsame : attributes.map (fun p => (p.1, p.2.carried)) = attributes.map (fun p => p) ↔
      ∀ p ∈ attributes, (p.1, p.2.carried) = p := List.map_inj_left
  rw [List.map_id'] at hsame
  simp only [carried, OnClock, mk.injEq, true_and, hsame, Prod.ext_iff, Value.carried_eq_self_iff]

theorem get?_carried (e : Entity) (name : String) :
    e.carried.get? name = (e.get? name).map Value.carried :=
  Assoc.find?_map Value.carried name e.attributes

theorem contains_carried (e : Entity) (name : String) :
    e.carried.contains name = e.contains name := by
  rw [contains, contains, get?_carried, Option.isSome_map]

/-- What clocks show for the instants of a well formed entity may stand in their place. -/
theorem WellFormed.carried (he : e.WellFormed) : e.carried.WellFormed := by
  refine ⟨⟨he.id_valid, he.sorted.map _, fun p hp => ?_⟩, missing?_eq_none_iff.mpr ?_⟩
  · obtain ⟨q, hq, rfl⟩ := List.mem_map.mp hp
    obtain ⟨a, ha, ds, hv⟩ := he.stored q hq
    exact ⟨a, ha, ds, Value.validate_carried hv⟩
  · intro a ha hreq
    rw [contains_carried]
    exact missing?_eq_none_iff.mp he.complete a ha hreq

theorem OnClock.set (he : e.OnClock) {name : String} {v : Value} (hv : v.OnClock)
    (h : e.set name v = .ok (f, ds)) : f.OnClock := by
  obtain ⟨a, w, -, hstored, rfl⟩ := set_eq_ok_iff.mp h
  intro p hp
  rcases Assoc.mem_insert hp with rfl | hp
  · exact (Value.onClock_congr_of_validate hstored).mpr hv
  · exact he p hp

theorem OnClock.setAll (he : e.OnClock) (hall : ∀ p ∈ attributes, p.2.OnClock)
    (h : e.setAll attributes = .ok (f, ds)) : f.OnClock := by
  induction attributes generalizing e ds with
  | nil =>
    cases h
    exact he
  | cons p rest ih =>
    obtain ⟨name, v⟩ := p
    simp only [Entity.setAll, Except.bind_eq_ok_iff, Prod.exists] at h
    obtain ⟨g, ds₁, hset, g', ds₂, hrest, hout⟩ := h
    cases hout
    obtain ⟨hv, hrestAll⟩ := List.forall_mem_cons.mp hall
    exact ih (he.set hv hset) hrestAll hrest

theorem OnClock.construct {kind : Kind} {id : Option String} {uuid : String}
    (hall : ∀ p ∈ attributes, p.2.OnClock)
    (h : construct kind id uuid attributes = .ok (e, ds)) : e.OnClock := by
  obtain ⟨-, hset, -⟩ := construct_eq_ok_iff.mp h
  have hstart : OnClock ⟨id.getD (Id.ofUuid kind uuid), kind, []⟩ := fun _ hp => by cases hp
  exact hstart.setAll hall hset

theorem onClock_of_readAttributes {kind : Kind} {r : Record}
    (h : readAttributes kind r = .ok attributes) : ∀ p ∈ attributes, p.2.OnClock := by
  induction r generalizing attributes with
  | nil =>
    cases h
    exact List.forall_mem_nil _
  | cons m rest ih =>
    obtain ⟨name, j⟩ := m
    rw [readAttributes] at h
    split_ifs at h
    · exact ih h
    · cases hdecl : kind.attribute? name with
      | none =>
        rw [hdecl] at h
        cases h
      | some a =>
        rw [hdecl] at h
        obtain ⟨v, hv, h⟩ := Except.bind_eq_ok_iff.mp h
        obtain ⟨vs, hvs, h⟩ := Except.bind_eq_ok_iff.mp h
        cases h
        exact List.forall_mem_cons.mpr ⟨Value.onClock_of_ofJson hv, ih hvs⟩

end Entity

end EntityStore
