import EntityStore.Proofs.Entity.Origin
import EntityStore.Relationship

/-! Relationships that point back: they swap the ends, keep the privileges, and lead to the first
edge again. -/
namespace EntityStore

namespace Relationship

open Entity

variable {e : Entity} {edge : Triple} {privileges : Option (List String)}

section Types

/-- Types of relationships that point in opposite directions. -/
def Opposite (a b : String) : Prop := (a, b) ∈ inversePairs ∨ (b, a) ∈ inversePairs

instance (a b : String) : Decidable (Opposite a b) :=
  inferInstanceAs (Decidable ((a, b) ∈ inversePairs ∨ (b, a) ∈ inversePairs))

theorem inverseType?_congr {s t : String} (h : Text.folded s = Text.folded t) :
    inverseType? s = inverseType? t := by
  unfold inverseType? Text.sameFolded
  rw [h]

/-- The table has an opposite for each option, and it leads both ways. -/
theorem exists_opposite_of_mem_options : ∀ c ∈ Enumeration.relationshipType.options,
    ∃ b ∈ Enumeration.relationshipType.options,
      Opposite c b ∧ inverseType? c = some b ∧ inverseType? b = some c := by
  decide +kernel

theorem exists_opposite {type canonical : String}
    (h : Enumeration.relationshipType.canonical? type = some canonical) :
    ∃ back, Enumeration.relationshipType.Allows back ∧ Opposite canonical back ∧
      inverseType? type = some back ∧ inverseType? back = some canonical := by
  obtain ⟨hmem, hfolded⟩ := Enumeration.mem_of_canonical? h
  obtain ⟨back, hback, hopposite, hthere, hhere⟩ := exists_opposite_of_mem_options canonical hmem
  rw [inverseType?_congr hfolded] at hthere
  exact ⟨back, ⟨back, hback, rfl⟩, hopposite, hthere, hhere⟩

end Types

section Make

/-- The attribute of privileges, where there are any to be set. -/
def privilegesAttribute : Option (List String) → List (String × Value)
  | some ps => [("privileges", .list (ps.map .str))]
  | none => []

/-- The relationship with an edge, its id around `uuid`. -/
def pointing (uuid : String) (edge : Triple) (privileges : Option (List String)) : Entity where
  id := Id.ofUuid .relationship uuid
  kind := .relationship
  attributes := ("object_id", .string edge.object) :: privilegesAttribute privileges ++
    [("relationship_type", .string edge.type), ("subject_id", .string edge.subject)]

theorem setAll_privileges (uuid : String) (edge : Triple) (privileges : Option (List String)) :
    (pointing uuid edge none).setAll (privilegesAttribute privileges) =
      .ok (pointing uuid edge privileges, []) := by
  cases privileges with
  | none => rfl
  | some ps =>
    have hset : (pointing uuid edge none).set "privileges" (.list (ps.map .str)) =
        .ok (pointing uuid edge (some ps), []) :=
      set_eq_ok_iff.mpr ⟨⟨"privileges", .stringList, false⟩, _, rfl,
        Value.validate_of_admits (.stringList _ ps (Value.texts_eq_ok_iff.mpr rfl)), rfl⟩
    exact setAll_cons hset rfl

/-- An edge is accepted, whatever its ends, when its type is an option in some letter case. -/
theorem exists_construct_pointing (uuid : String) (privileges : Option (List String))
    (h : Enumeration.relationshipType.Allows edge.type) :
    ∃ ds, construct .relationship none uuid
      ([("subject_id", .string edge.subject), ("relationship_type", .string edge.type),
        ("object_id", .string edge.object)] ++ privilegesAttribute privileges) =
      .ok (pointing uuid edge privileges, ds) := by
  obtain ⟨d, hd⟩ : ∃ d, Enumeration.relationshipType.check "relationship_type" edge.type = .ok d :=
    Enumeration.exists_check_iff.mpr h
  have hsubject : set ⟨Id.ofUuid .relationship uuid, .relationship, []⟩ "subject_id"
      (.string edge.subject) = .ok (⟨Id.ofUuid .relationship uuid, .relationship,
        [("subject_id", .string edge.subject)]⟩, []) := rfl
  have htype : set ⟨Id.ofUuid .relationship uuid, .relationship,
      [("subject_id", .string edge.subject)]⟩ "relationship_type" (.string edge.type) =
        .ok (⟨Id.ofUuid .relationship uuid, .relationship,
          [("relationship_type", .string edge.type), ("subject_id", .string edge.subject)]⟩,
            d.toList) :=
    set_eq_ok_iff.mpr ⟨⟨"relationship_type", .option .relationshipType, true⟩, _, rfl,
      Value.validate_of_admits (.option _ _ d hd), rfl⟩
  have hobject : set ⟨Id.ofUuid .relationship uuid, .relationship,
      [("relationship_type", .string edge.type), ("subject_id", .string edge.subject)]⟩ "object_id"
        (.string edge.object) = .ok (pointing uuid edge none, []) := rfl
  have hcomplete : (pointing uuid edge privileges).missing? = none := by
    cases privileges <;> rfl
  have hall := setAll_cons hsubject (setAll_cons htype (setAll_cons hobject
    (setAll_privileges uuid edge privileges)))
  refine ⟨_, construct_eq_ok_iff.mpr ⟨?_, hall, hcomplete⟩⟩
  intro given hgiven
  cases hgiven

theorem make_eq_ok (uuid : String) (edge : Triple) (privileges : Option (List String))
    (h : Enumeration.relationshipType.Allows edge.type) :
    make uuid edge.subject edge.type edge.object privileges =
      .ok (pointing uuid edge privileges) := by
  have hmake : make uuid edge.subject edge.type edge.object privileges =
      (construct .relationship none uuid
        ([("subject_id", .string edge.subject), ("relationship_type", .string edge.type),
          ("object_id", .string edge.object)] ++ privilegesAttribute privileges) >>=
        fun p => .ok p.1) := by
    cases privileges <;> rfl
  obtain ⟨ds, hconstruct⟩ := exists_construct_pointing uuid privileges h
  rw [hmake, hconstruct, Except.ok_bind]

/-- A reachable relationship with an edge, its privileges set to a value or absent. -/
structure Links (e : Entity) (edge : Triple) (privileges : Option Value) : Prop where
  reachable : e.Reachable
  kind_eq : e.kind = .relationship
  triple : triple? e = some edge
  privileges : e.get? "privileges" = privileges

theorem links_pointing {uuid : String} (hu : Id.isUuid4 uuid.toList = true)
    (privileges : Option (List String)) (h : Enumeration.relationshipType.Allows edge.type) :
    Links (pointing uuid edge privileges) edge (privileges.map fun ps => .list (ps.map .str)) := by
  obtain ⟨ds, hconstruct⟩ := exists_construct_pointing uuid privileges h
  refine ⟨.construct (fun _ => hu) hconstruct, rfl, ?_, ?_⟩
  · cases privileges <;> rfl
  · cases privileges <;> rfl

end Make

section Inverse

/-- A relationship has all of its edge, whatever was done to it. -/
theorem exists_triple (h : e.Lawful .relationship) :
    ∃ edge, triple? e = some edge ∧ Enumeration.relationshipType.Allows edge.type := by
  have hsubject : ⟨"subject_id", .string, true⟩ ∈ Kind.relationship.attributes := by decide
  have htype : ⟨"relationship_type", .option .relationshipType, true⟩ ∈
      Kind.relationship.attributes := by decide
  have hobject : ⟨"object_id", .string, true⟩ ∈ Kind.relationship.attributes := by decide
  obtain ⟨v, hv⟩ := h.complete _ hsubject rfl
  obtain ⟨w, hw⟩ := h.complete _ htype rfl
  obtain ⟨x, hx⟩ := h.complete _ hobject rfl
  cases h.normal_of_get? hsubject hv with
  | string subject =>
    cases h.normal_of_get? htype hw with
    | option _ type hallows =>
      cases h.normal_of_get? hobject hx with
      | string object =>
        refine ⟨⟨subject, type, object⟩, ?_, hallows⟩
        simp [triple?, textOf?, h.kind_eq, hv, hw, hx, Value.text?]

/-- Privileges are texts, all of which are found. -/
theorem get?_privileges (h : e.Lawful .relationship) :
    e.get? "privileges" = (privileges? e).map fun ps => .list (ps.map .str) := by
  have hmem : ⟨"privileges", .stringList, false⟩ ∈ Kind.relationship.attributes := by decide
  unfold privileges?
  cases hget : e.get? "privileges" with
  | none => rfl
  | some v =>
    cases h.normal_of_get? hmem hget with
    | stringList ts =>
      have htexts : (ts.map Json.str).filterMap Json.str? = ts := by
        rw [List.filterMap_map]
        exact List.filterMap_some
      dsimp only
      rw [htexts, Option.map_some]

theorem privileges?_congr {f : Entity} (h : f.get? "privileges" = e.get? "privileges") :
    privileges? f = privileges? e := by
  unfold privileges?
  rw [h]

theorem inverse?_eq_some (uuid : String) {back : String} (hedge : triple? e = some edge)
    (hback : inverseType? edge.type = some back)
    (hallows : Enumeration.relationshipType.Allows back) :
    inverse? uuid e =
      some (.ok (pointing uuid ⟨edge.object, back, edge.subject⟩ (privileges? e))) := by
  have hmake : make uuid edge.object back edge.subject (privileges? e) =
      .ok (pointing uuid ⟨edge.object, back, edge.subject⟩ (privileges? e)) :=
    make_eq_ok uuid ⟨edge.object, back, edge.subject⟩ (privileges? e) hallows
  unfold inverse?
  rw [hedge]
  simp [hback, hmake]

theorem inverse?_eq_none_of_kind {uuid : String} (h : e.kind ≠ .relationship) :
    inverse? uuid e = none := by
  unfold inverse? triple?
  rw [if_neg h]
  rfl

/-- The way back from the relationship that points back. -/
theorem exists_there_and_back {uuid uuid' : String} (h : e.Lawful .relationship)
    (hu : Id.isUuid4 uuid.toList = true) (hu' : Id.isUuid4 uuid'.toList = true) :
    ∃ edge canonical back f g, triple? e = some edge ∧
      Enumeration.relationshipType.canonical? edge.type = some canonical ∧
      Opposite canonical back ∧
      inverse? uuid e = some (.ok f) ∧
      Links f ⟨edge.object, back, edge.subject⟩ (e.get? "privileges") ∧
      inverse? uuid' f = some (.ok g) ∧
      Links g ⟨edge.subject, canonical, edge.object⟩ (e.get? "privileges") := by
  obtain ⟨edge, hedge, hallows⟩ := exists_triple h
  obtain ⟨canonical, hcanonical⟩ :=
    Option.isSome_iff_exists.mp (Enumeration.canonical?_isSome_iff.mpr hallows)
  obtain ⟨back, hback, hopposite, hthere, hhere⟩ := exists_opposite hcanonical
  have hcanonicalAllows : Enumeration.relationshipType.Allows canonical :=
    ⟨canonical, (Enumeration.mem_of_canonical? hcanonical).1, rfl⟩
  have hf : Links (pointing uuid ⟨edge.object, back, edge.subject⟩ (privileges? e))
      ⟨edge.object, back, edge.subject⟩ (e.get? "privileges") := by
    rw [get?_privileges h]
    exact links_pointing hu (privileges? e) hback
  have hg : Links (pointing uuid' ⟨edge.subject, canonical, edge.object⟩ (privileges? e))
      ⟨edge.subject, canonical, edge.object⟩ (e.get? "privileges") := by
    rw [get?_privileges h]
    exact links_pointing hu' (privileges? e) hcanonicalAllows
  have hinverse := inverse?_eq_some uuid' hf.triple hhere hcanonicalAllows
  rw [privileges?_congr hf.privileges] at hinverse
  exact ⟨edge, canonical, back, _, _, hedge, hcanonical, hopposite,
    inverse?_eq_some uuid hedge hthere hback, hf, hinverse, hg⟩

/-- Whatever was done to an entity, it has a relationship that points back exactly when it is one
itself. That one has the ends swapped, the opposite type and the same privileges, and what points
back from it has the first edge again, its type in canonical case. -/
theorem inverse?_there_and_back {kind : Kind} {e : Entity} (h : Origin kind e)
    (changes : List Change) (uuid uuid' : String) (hu : Id.isUuid4 uuid.toList = true)
    (hu' : Id.isUuid4 uuid'.toList = true) :
    (inverse? uuid (e.changeAll changes) = none ↔ (e.changeAll changes).kind ≠ .relationship) ∧
      ((e.changeAll changes).kind = .relationship → ∃ edge canonical back f g,
        triple? (e.changeAll changes) = some edge ∧
        Enumeration.relationshipType.canonical? edge.type = some canonical ∧
        Opposite canonical back ∧
        inverse? uuid (e.changeAll changes) = some (.ok f) ∧
        Links f ⟨edge.object, back, edge.subject⟩ ((e.changeAll changes).get? "privileges") ∧
        inverse? uuid' f = some (.ok g) ∧
        Links g ⟨edge.subject, canonical, edge.object⟩
          ((e.changeAll changes).get? "privileges")) := by
  have hlawful : (e.changeAll changes).Lawful (e.changeAll changes).kind :=
    (h.reachable.wellFormed.changeAll changes).lawful
  have hthere : (e.changeAll changes).kind = .relationship → _ := fun hkind =>
    exists_there_and_back (hkind ▸ hlawful) hu hu'
  refine ⟨⟨?_, inverse?_eq_none_of_kind⟩, hthere⟩
  intro hnone hkind
  obtain ⟨edge, canonical, back, f, g, -, -, -, hsome, -⟩ := hthere hkind
  rw [hnone] at hsome
  cases hsome

/-- An edge to itself whose type is in another letter case, with a list of no privileges. -/
def looseEdge : List (String × Value) := [
  ("subject_id", .string "a"), ("relationship_type", .string "containedIN"),
  ("object_id", .string "a"), ("privileges", .list [])]

/-- Changes of which all but the first are refused. -/
def looseChanges : List Change := [
  .set "object_id" (.string "b"), .unset "object_id", .set "privileges" (.list [.int 1])]

theorem inverse?_there_and_back_looseEdge :
    ∃ e ds f g, construct .relationship none "6e2f0f2d-bd49-4ed5-b3ab-4e5d8c1a1c05" looseEdge =
        .ok (e, ds) ∧
      inverse? "9293510b-534b-4dd0-b7c5-78d92e279400" (e.changeAll looseChanges) = some (.ok f) ∧
      Links f ⟨"b", "Contains", "a"⟩ (some (.list [])) ∧
      inverse? "46545b7a-1840-4e34-a26f-aef5eb954b25" f = some (.ok g) ∧
      Links g ⟨"a", "ContainedIn", "b"⟩ (some (.list [])) := by
  obtain ⟨e, ds, h, hchanged⟩ : ∃ e ds, construct .relationship none
        "6e2f0f2d-bd49-4ed5-b3ab-4e5d8c1a1c05" looseEdge = .ok (e, ds) ∧
      e.changeAll looseChanges = ⟨e.id, .relationship, [("object_id", .string "b"),
        ("privileges", .list []), ("relationship_type", .string "containedIN"),
        ("subject_id", .string "a")]⟩ := ⟨_, _, rfl, rfl⟩
  have horigin : Origin .relationship e := .construct (fun _ => by decide) h
  obtain ⟨edge, canonical, back, f, g, hedge, hcanonical, hopposite, hf, hlinks, hg, hback⟩ :=
    (inverse?_there_and_back horigin looseChanges "9293510b-534b-4dd0-b7c5-78d92e279400"
      "46545b7a-1840-4e34-a26f-aef5eb954b25" (by decide) (by decide)).2 (by rw [hchanged])
  rw [hchanged] at hedge hlinks hback
  cases hedge
  cases hcanonical
  have hcontains : back = "Contains" := by
    simpa [Opposite, inversePairs] using hopposite
  rw [hcontains] at hlinks
  exact ⟨e, ds, f, g, h, hf, hlinks, hg, hback⟩

end Inverse

end Relationship

end EntityStore
