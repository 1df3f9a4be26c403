import EntityStore.Entity.Basic
import EntityStore.Proofs.Assoc
import EntityStore.Proofs.Entity.Value
import EntityStore.Proofs.Except
import Mathlib.Data.List.Nodup

/-! What holds of every entity: it is built checked, and changes keep it so. -/
namespace EntityStore

theorem Kind.ofName?_name (k : Kind) : Kind.ofName? k.name = some k := by
  cases k <;> rfl

theorem Kind.name_injective {j k : Kind} (h : j.name = k.name) : j = k := by
  have hj := ofName?_name j
  rw [h, ofName?_name k] at hj
  exact (Option.some.inj hj).symm

theorem Kind.mem_all (k : Kind) : k ∈ Kind.all := by
  cases k <;> decide

/-- A kind declares a name once, also where it inherits it. -/
theorem Kind.nodup_attributes (k : Kind) : (k.attributes.map (·.name)).Nodup := by
  cases k <;> decide

theorem Kind.attribute?_eq_some_iff {k : Kind} {name : String} {a : Attribute} :
    k.attribute? name = some a ↔ a ∈ k.attributes ∧ a.name = name := by
  constructor
  · intro h
    exact ⟨List.mem_of_find?_eq_some h, by simpa using List.find?_some h⟩
  · rintro ⟨ha, rfl⟩
    cases h : k.attribute? a.name with
    | none =>
      have := List.find?_eq_none.mp h a ha
      simp at this
    | some b =>
      have hb : b ∈ k.attributes := List.mem_of_find?_eq_some h
      have hname : b.name = a.name := by simpa using List.find?_some h
      rw [List.inj_on_of_nodup_map k.nodup_attributes hb ha hname]

namespace Id

theorem strip?_append (ps cs : List Char) : strip? ps (ps ++ cs) = some cs := by
  induction ps with
  | nil => rfl
  | cons p ps ih => rw [List.cons_append, strip?, if_pos rfl, ih]

theorem valid_ofUuid (kind : Kind) {uuid : String} (h : isUuid4 uuid.toList = true) :
    valid kind (ofUuid kind uuid) = true := by
  rw [valid, ofUuid, String.toList_append, strip?_append]
  exact h

theorem validate_eq_ok_iff {kind : Kind} {id : String} :
    validate kind id = .ok () ↔ valid kind id = true := by
  unfold validate
  split_ifs with h <;> simp [h]

end Id

namespace Entity

theorem declaration_eq_ok_iff {e : Entity} {name : String} {a : Attribute} :
    e.declaration name = .ok a ↔
      name ≠ idField ∧ name ≠ kindField ∧ e.kind.attribute? name = some a := by
  unfold declaration
  split_ifs with h
  · simp only [false_iff, not_and]
    intro h₁ h₂
    exact (h.elim h₁ h₂).elim
  · rw [not_or] at h
    cases e.kind.attribute? name <;> simp [h]

/-- Setting an attribute puts the checked value in its place, and does nothing else. -/
theorem set_eq_ok_iff {e f : Entity} {name : String} {v : Value} {ds : List CaseDiagnostic} :
    e.set name v = .ok (f, ds) ↔ ∃ a w, e.declaration name = .ok a ∧ v.validate a = .ok (w, ds) ∧
      f = { e with attributes := Assoc.insert name w e.attributes } := by
  unfold set
  simp only [Except.bind_eq_ok_iff, Except.pure_eq_ok, Except.ok.injEq, Prod.mk.injEq, Prod.exists]
  constructor
  · rintro ⟨a, ha, w, _, hv, rfl, rfl⟩
    exact ⟨a, w, ha, hv, rfl⟩
  · rintro ⟨a, w, ha, hv, rfl⟩
    exact ⟨a, ha, w, ds, hv, rfl, rfl⟩

/-- Unsetting an attribute takes away one that is not required, and does nothing else. -/
theorem unset_eq_ok_iff {e f : Entity} {name : String} {old : Option Value} :
    e.unset name = .ok (f, old) ↔ ∃ a, e.declaration name = .ok a ∧ a.required = false ∧
      f = { e with attributes := Assoc.erase name e.attributes } ∧ old = e.get? name := by
  unfold unset
  rw [Except.bind_eq_ok_iff]
  refine exists_congr fun a => and_congr_right fun _ => ?_
  cases a.required <;> simp [eq_comm]

/-- An id is replaced by one that the kind allows. -/
theorem setId_eq_ok_iff {e f : Entity} {id : String} :
    e.setId id = .ok f ↔ Id.valid e.kind id = true ∧ f = { e with id } := by
  unfold setId
  simp only [Except.bind_eq_ok_iff, Except.pure_eq_ok, Except.ok.injEq]
  constructor
  · rintro ⟨_, hv, rfl⟩
    exact ⟨Id.validate_eq_ok_iff.mp hv, rfl⟩
  · rintro ⟨hv, rfl⟩
    exact ⟨(), Id.validate_eq_ok_iff.mpr hv, rfl⟩

/-- A change that a caller may ask for. -/
inductive Change
  | set (name : String) (value : Value)
  | unset (name : String)
  | setId (id : String)

/-- The entity after a change; one that is refused leaves it as it was. -/
def change (e : Entity) : Change → Entity
  | .set name v => match e.set name v with
    | .ok (f, _) => f
    | .error _ => e
  | .unset name => match e.unset name with
    | .ok (f, _) => f
    | .error _ => e
  | .setId id => match e.setId id with
    | .ok f => f
    | .error _ => e

/-- The entity after changes in turn. -/
def changeAll (e : Entity) (changes : List Change) : Entity := changes.foldl change e

/-- The id is one of the kind, and each attribute stands once, is declared for the kind, and has a
value as it is stored for the declaration. -/
structure Sound (e : Entity) : Prop where
  id_valid : Id.valid e.kind e.id = true
  sorted : Assoc.Sorted e.attributes
  stored : ∀ p ∈ e.attributes, ∃ a, e.declaration p.1 = .ok a ∧ p.2.Stored a

/-- A sound entity in which no required attribute is absent. -/
structure WellFormed (e : Entity) : Prop extends Sound e where
  complete : e.missing? = none

theorem missing?_eq_none_iff {e : Entity} :
    e.missing? = none ↔ ∀ a ∈ e.kind.attributes, a.required = true → e.contains a.name = true := by
  simp [missing?, List.find?_eq_none]

theorem Sound.set {e f : Entity} (he : e.Sound) {name : String} {v : Value}
    {ds : List CaseDiagnostic} (h : e.set name v = .ok (f, ds)) : f.Sound := by
  obtain ⟨a, w, ha, hv, rfl⟩ := set_eq_ok_iff.mp h
  refine ⟨he.id_valid, he.sorted.insert name w, fun p hp => ?_⟩
  rcases Assoc.mem_insert hp with rfl | hp
  · exact ⟨a, ha, ds, Value.validate_validate hv⟩
  · exact he.stored p hp

theorem WellFormed.set {e f : Entity} (he : e.WellFormed) {name : String} {v : Value}
    {ds : List CaseDiagnostic} (h : e.set name v = .ok (f, ds)) : f.WellFormed := by
  refine ⟨he.toSound.set h, missing?_eq_none_iff.mpr fun b hb hreq => ?_⟩
  obtain ⟨a, w, ha, hv, rfl⟩ := set_eq_ok_iff.mp h
  have hold := missing?_eq_none_iff.mp he.complete b hb hreq
  by_cases hn : b.name = name
  · rw [hn, contains, get?, Assoc.find?_insert_self]
    rfl
  · rwa [contains, get?, Assoc.find?_insert_of_ne hn]

/-- A required attribute is declared once, so that what is unset is none of them. -/
theorem WellFormed.unset {e f : Entity} (he : e.WellFormed) {name : String} {old : Option Value}
    (h : e.unset name = .ok (f, old)) : f.WellFormed := by
  obtain ⟨a, ha, hreq, rfl, -⟩ := unset_eq_ok_iff.mp h
  refine ⟨⟨he.id_valid, he.sorted.erase name, fun p hp => he.stored p (Assoc.mem_erase.mp hp).1⟩,
    missing?_eq_none_iff.mpr fun b hb hb' => ?_⟩
  have hold := missing?_eq_none_iff.mp he.complete b hb hb'
  -- A name has one declaration, so that a required one is not that of the unset attribute.
  have hn : b.name ≠ name := by
    rintro rfl
    have hself := Kind.attribute?_eq_some_iff.mpr ⟨hb, rfl⟩
    rw [(declaration_eq_ok_iff.mp ha).2.2] at hself
    cases hself
    rw [hreq] at hb'
    cases hb'
  rwa [contains, get?, Assoc.find?_erase_of_ne hn]

theorem WellFormed.setId {e f : Entity} (he : e.WellFormed) {id : String}
    (h : e.setId id = .ok f) : f.WellFormed := by
  obtain ⟨hv, rfl⟩ := setId_eq_ok_iff.mp h
  exact ⟨⟨hv, he.sorted, he.stored⟩, he.complete⟩

/-- A change is refused, or it is one of the three that succeed. -/
theorem change_cases (e : Entity) (c : Change) :
    e.change c = e ∨ (∃ name v ds, e.set name v = .ok (e.change c, ds)) ∨
      (∃ name old, e.unset name = .ok (e.change c, old)) ∨
        ∃ id, e.setId id = .ok (e.change c) := by
  unfold change
  cases c with
  | set name v =>
    dsimp only
    split
    next f ds h => exact .inr (.inl ⟨name, v, ds, h⟩)
    next => exact .inl rfl
  | unset name =>
    dsimp only
    split
    next f old h => exact .inr (.inr (.inl ⟨name, old, h⟩))
    next => exact .inl rfl
  | setId id =>
    dsimp only
    split
    next f h => exact .inr (.inr (.inr ⟨id, h⟩))
    next => exact .inl rfl

/-- One change keeps an entity well formed, refused or not. -/
theorem WellFormed.change {e : Entity} (he : e.WellFormed) (c : Change) :
    (e.change c).WellFormed := by
  rcases change_cases e c with hsame | ⟨name, v, ds, h⟩ | ⟨name, old, h⟩ | ⟨id, h⟩
  · rwa [hsame]
  · exact he.set h
  · exact he.unset h
  · exact he.setId h

theorem WellFormed.changeAll {e : Entity} (he : e.WellFormed) (changes : List Change) :
    (e.changeAll changes).WellFormed := by
  induction changes generalizing e with
  | nil => exact he
  | cons c cs ih => exact ih (he.change c)

theorem Sound.setAll {e f : Entity} (he : e.Sound) {attributes : List (String × Value)}
    {ds : List CaseDiagnostic} (h : e.setAll attributes = .ok (f, ds)) : f.Sound := by
  induction attributes generalizing e ds with
  | nil =>
    cases h
    exact he
  | cons p rest ih =>
    obtain ⟨name, v⟩ := p
    simp only [Entity.setAll, Except.bind_eq_ok_iff, Prod.exists] at h
    obtain ⟨g, ds₁, hset, g', ds₂, hrest, hout⟩ := h
    cases hout
    exact ih (he.set hset) hrest

/-- Construction sets the attributes of an entity with a checked id, or with one around `uuid`, and
asks for the required ones at the end. -/
theorem construct_eq_ok_iff {kind : Kind} {id : Option String} {uuid : String}
    {attributes : List (String × Value)} {e : Entity} {ds : List CaseDiagnostic} :
    construct kind id uuid attributes = .ok (e, ds) ↔
      (∀ given ∈ id, Id.valid kind given = true) ∧
        setAll ⟨id.getD (Id.ofUuid kind uuid), kind, []⟩ attributes = .ok (e, ds) ∧
        e.missing? = none := by
  cases id with
  | none =>
    simp only [construct, Except.pure_eq_ok, Except.ok_bind, Except.bind_eq_ok_iff, Prod.exists]
    constructor
    · rintro ⟨f, fs, hset, h⟩
      split at h
      next => cases h
      next hm =>
        cases h
        exact ⟨fun _ hg => (Option.not_mem_none _ hg).elim, hset, hm⟩
    · rintro ⟨-, hset, hm⟩
      exact ⟨e, ds, hset, by simp only [hm]⟩
  | some given =>
    simp only [construct, Except.bind_eq_ok_iff, Except.map_eq_ok_iff, Prod.exists]
    constructor
    · rintro ⟨_, ⟨_, hv, rfl⟩, f, fs, hset, h⟩
      split at h
      next => cases h
      next hm =>
        cases h
        exact ⟨fun _ hg => Option.mem_some.mp hg ▸ Id.validate_eq_ok_iff.mp hv, hset, hm⟩
    · rintro ⟨hid, hset, hm⟩
      have hv := Id.validate_eq_ok_iff.mpr (hid given rfl)
      exact ⟨given, ⟨(), hv, rfl⟩, e, ds, hset, by simp only [hm, Except.pure_eq_ok]⟩

/-- An entity is well formed from its construction on, whether its id is given or generated. -/
theorem WellFormed.construct {kind : Kind} {id : Option String} {uuid : String}
    {attributes : List (String × Value)} {e : Entity} {ds : List CaseDiagnostic}
    (hu : id = none → Id.isUuid4 uuid.toList = true)
    (h : construct kind id uuid attributes = .ok (e, ds)) : e.WellFormed := by
  obtain ⟨hid, hset, hm⟩ := construct_eq_ok_iff.mp h
  have hstart : Sound ⟨id.getD (Id.ofUuid kind uuid), kind, []⟩ := by
    refine ⟨?_, .nil, fun p hp => nomatch hp⟩
    cases id with
    | none => exact Id.valid_ofUuid kind (hu rfl)
    | some given => exact hid given rfl
  exact ⟨hstart.setAll hset, hm⟩

/-- The entities that callers can hold: constructed ones, and those that changes make of them. -/
inductive Reachable : Entity → Prop
  | construct {kind : Kind} {id : Option String} {uuid : String}
      {attributes : List (String × Value)} {e : Entity} {ds : List CaseDiagnostic}
      (hu : id = none → Id.isUuid4 uuid.toList = true)
      (h : construct kind id uuid attributes = .ok (e, ds)) : Reachable e
  | change {e : Entity} (he : Reachable e) (c : Change) : Reachable (e.change c)

theorem Reachable.wellFormed {e : Entity} (he : e.Reachable) : e.WellFormed := by
  induction he with
  | construct hu h => exact .construct hu h
  | change _ c ih => exact ih.change c

end Entity

end EntityStore
