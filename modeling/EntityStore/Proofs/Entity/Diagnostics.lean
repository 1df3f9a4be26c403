import EntityStore.Proofs.Entity.Record
import EntityStore.Proofs.Json.Reread

/-! Diagnostics of letter case: which texts of an entity they name, and that they outlast its
file. -/
namespace EntityStore

/-- The texts among some that are not options of their enumerations, character for character. -/
def strays (choices : List (Enumeration × String)) : List (Enumeration × String) :=
  choices.filter fun c => c.2 ∉ c.1.options

/-- A diagnostic that names a text, and the option that it is in another letter case. -/
structure Flags (choice : Enumeration × String) (d : CaseDiagnostic) : Prop where
  enumeration_eq : d.enumeration = choice.1
  given_eq : d.given = choice.2
  option : d.canonical ∈ choice.1.options
  folded_eq : Text.folded d.canonical = Text.folded choice.2

theorem strays_append (cs ds : List (Enumeration × String)) :
    strays (cs ++ ds) = strays cs ++ strays ds := List.filter_append cs ds

theorem flags_flatMap {α : Type} {f : α → List (Enumeration × String)}
    {g : α → List CaseDiagnostic} {xs : List α}
    (h : ∀ x ∈ xs, List.Forall₂ Flags (strays (f x)) (g x)) :
    List.Forall₂ Flags (strays (xs.flatMap f)) (xs.flatMap g) := by
  induction xs with
  | nil => exact .nil
  | cons x xs ih =>
    obtain ⟨hx, hxs⟩ := List.forall_mem_cons.mp h
    rw [List.flatMap_cons, List.flatMap_cons, strays_append]
    exact List.rel_append hx (ih hxs)

namespace Enumeration

variable {e : Enumeration} {name s : String}

/-- No two options of an enumeration differ in letter case only. -/
theorem canonical?_of_mem (h : s ∈ e.options) : e.canonical? s = some s := by
  revert s
  cases e <;> decide +kernel

theorem flags_of_check {d : Option CaseDiagnostic} (h : e.check name s = .ok d) :
    List.Forall₂ Flags (strays [(e, s)]) d.toList := by
  unfold check at h
  cases hfound : e.canonical? s with
  | none =>
    rw [hfound] at h
    cases h
  | some c =>
    obtain ⟨hoption, hfolded⟩ := mem_of_canonical? hfound
    rw [hfound, Except.ok.injEq] at h
    by_cases hsame : c = s
    · have hnone : strays [(e, s)] = [] := by simp [strays, ← hsame, hoption]
      rw [if_pos hsame] at h
      rw [hnone, ← h]
      exact .nil
    · have hstray : s ∉ e.options := by
        intro hmem
        rw [canonical?_of_mem hmem] at hfound
        exact hsame (Option.some.inj hfound).symm
      have hself : strays [(e, s)] = [(e, s)] := by simp [strays, hstray]
      rw [if_neg hsame] at h
      rw [hself, ← h]
      exact .cons ⟨rfl, rfl, hoption, hfolded⟩ .nil

theorem flags_of_checkAll {ts : List String} {ds : List CaseDiagnostic}
    (h : e.checkAll name ts = .ok ds) :
    List.Forall₂ Flags (strays (ts.map fun t => (e, t))) ds := by
  induction ts generalizing ds with
  | nil =>
    cases h
    exact .nil
  | cons t ts ih =>
    rw [checkAll] at h
    obtain ⟨d, hd, h⟩ := Except.bind_eq_ok_iff.mp h
    obtain ⟨more, hmore, h⟩ := Except.bind_eq_ok_iff.mp h
    cases h
    rw [List.map_cons, ← List.singleton_append, strays_append]
    exact List.rel_append (flags_of_check hd) (ih hmore)

end Enumeration

/-- The enumeration whose options a type asks for. -/
def AttributeType.enumeration? : AttributeType → Option Enumeration
  | .option e => some e
  | .optionList e => some e
  | _ => none

theorem Entity.attributeDiagnostics_eq {k : Kind} {a : Attribute} {name : String} {v w : Value}
    {ds : List CaseDiagnostic} (ha : k.attribute? name = some a)
    (hv : v.validate a = .ok (w, ds)) : attributeDiagnostics k name v = ds := by
  simp only [attributeDiagnostics, ha, hv]

namespace Value

/-- The texts of a value that its type takes for options of an enumeration, in order. -/
def choices : AttributeType → Value → List (Enumeration × String)
  | .option e, string s => [(e, s)]
  | .optionList e, list items => (items.filterMap Json.str?).map fun s => (e, s)
  | _, _ => []

theorem filterMap_str?_map (ts : List String) : (ts.map Json.str).filterMap Json.str? = ts := by
  rw [List.filterMap_map]
  exact List.filterMap_some

/-- What is admitted is reported for the texts that are stored. -/
theorem Admits.flags {name : String} {type : AttributeType} {v w : Value}
    {ds : List CaseDiagnostic} (h : Admits name type v w ds) :
    List.Forall₂ Flags (strays (w.choices type)) ds := by
  cases h with
  | option e s d hd => exact Enumeration.flags_of_check hd
  | optionList e items ts ds ht hd =>
    rw [texts_eq_ok_iff.mp ht, choices, filterMap_str?_map]
    exact Enumeration.flags_of_checkAll hd
  | _ => exact .nil

/-- Only types with an enumeration report anything. -/
theorem Admits.eq_nil {name : String} {type : AttributeType} {v w : Value}
    {ds : List CaseDiagnostic} (h : Admits name type v w ds) (htype : type.enumeration? = none) :
    ds = [] := by
  cases h with
  | option => cases htype
  | optionList => cases htype
  | _ => rfl

theorem Decodes.attributeDiagnostics_eq_nil {k : Kind} {name : String} {a : Attribute} {j : Json}
    {w : Value} (h : Decodes a j w) (ha : k.attribute? name = some a)
    (htype : a.type.enumeration? = none) : Entity.attributeDiagnostics k name w = [] := by
  obtain ⟨v, ds, -, hv⟩ := h
  rw [Entity.attributeDiagnostics_eq ha (validate_validate hv)]
  exact (admits_of_validate hv).eq_nil htype

theorem Decodes.unique {a : Attribute} {j : Json} {w w' : Value} (h : Decodes a j w)
    (h' : Decodes a j w') : w = w' := by
  obtain ⟨v, ds, hread, hcheck⟩ := h
  obtain ⟨v', ds', hread', hcheck'⟩ := h'
  cases hread.symm.trans hread'
  cases hcheck.symm.trans hcheck'
  rfl

/-- Texts and lists of texts are regular and exact. -/
theorem Decodes.regular {a : Attribute} {j : Json} {w : Value} {e : Enumeration}
    (h : Decodes a j w) (htype : a.type.enumeration? = some e) :
    j.every Json.isRegular = true ∧ j.every Json.isExact = true := by
  obtain ⟨name, type, required⟩ := a
  obtain ⟨v, ds, hread, hcheck⟩ := h
  cases type with
  | option =>
    cases j with
    | str s => exact ⟨rfl, rfl⟩
    | _ => cases hread
  | optionList =>
    cases j with
    | arr items =>
      cases (Decodes.spec rfl ⟨v, ds, hread, hcheck⟩).1 with
      | optionList _ ts _ =>
        have hall {p : Json → Bool} (hp : ∀ s, p (.str s) = true) :
            ∀ x ∈ ts.map Json.str, x.every p = true := by
          intro x hx
          obtain ⟨t, -, rfl⟩ := List.mem_map.mp hx
          exact hp t
        exact ⟨Json.every_arr_iff.mpr ⟨rfl, hall fun _ => rfl⟩,
          Json.every_arr_iff.mpr ⟨rfl, hall fun _ => rfl⟩⟩
    | _ => cases hread
  | _ => cases htype

end Value

namespace Entity

variable {e f : Entity} {ds : List CaseDiagnostic}

/-- The texts that an entity stores for options, by the names of its attributes, and in each of them
in order. -/
def choices (e : Entity) : List (Enumeration × String) :=
  e.attributes.flatMap fun p => match e.kind.attribute? p.1 with
    | some a => p.2.choices a.type
    | none => []

/-- The diagnostics of a sound entity name the texts that are no options, one by one. -/
theorem Sound.flags (he : e.Sound) :
    List.Forall₂ Flags (strays e.choices) e.caseDiagnostics := by
  refine flags_flatMap fun ⟨name, v⟩ hp => ?_
  obtain ⟨a, hdecl, ds, hv⟩ := he.stored (name, v) hp
  have ha := (declaration_eq_ok_iff.mp hdecl).2.2
  dsimp only
  rw [attributeDiagnostics_eq ha hv, ha]
  exact (Value.admits_of_validate hv).flags

/-- Setting attributes reports the diagnostics of what is given. -/
theorem diagnostics_setAll {attributes : List (String × Value)}
    (h : e.setAll attributes = .ok (f, ds)) :
    ds = attributes.flatMap fun p => attributeDiagnostics e.kind p.1 p.2 := by
  induction attributes generalizing e ds with
  | nil =>
    cases h
    rfl
  | cons p rest ih =>
    obtain ⟨name, v⟩ := p
    rw [setAll] at h
    obtain ⟨⟨g, ds₁⟩, hset, h⟩ := Except.bind_eq_ok_iff.mp h
    obtain ⟨⟨f', ds₂⟩, hrest, h⟩ := Except.bind_eq_ok_iff.mp h
    cases h
    obtain ⟨a, w, hdecl, hv, rfl⟩ := set_eq_ok_iff.mp hset
    have ha := (declaration_eq_ok_iff.mp hdecl).2.2
    rw [List.flatMap_cons, attributeDiagnostics_eq ha hv, ih hrest]

/-- A well formed entity is built again from its own attributes, with its own diagnostics. -/
theorem WellFormed.construct_self (he : e.WellFormed) (uuid : String) :
    Entity.construct e.kind (some e.id) uuid e.attributes = .ok (e, e.caseDiagnostics) := by
  obtain ⟨ds, hset⟩ := setAll_of_stored (e := ⟨e.id, e.kind, []⟩) he.sorted he.stored
  have hds : ds = e.caseDiagnostics := diagnostics_setAll (e := ⟨e.id, e.kind, []⟩) hset
  rw [hds] at hset
  exact construct_eq_ok_iff.mpr ⟨fun _ h => Option.mem_some.mp h ▸ he.id_valid, hset, he.complete⟩

/-- What the diagnostics of an entity are: none of its attributes is skipped, for each passes its
check, and they name the texts that are no options in order, as when the entity was built from its
attributes. -/
structure Diagnosed (e : Entity) : Prop where
  sorted : Assoc.Sorted e.attributes
  checked : ∀ p ∈ e.attributes, ∃ a, e.kind.attribute? p.1 = some a ∧
    ∃ ds, p.2.validate a = .ok (p.2, ds)
  flags : List.Forall₂ Flags (strays e.choices) e.caseDiagnostics
  rebuilt : ∀ uuid, Entity.construct e.kind (some e.id) uuid e.attributes =
    .ok (e, e.caseDiagnostics)

theorem WellFormed.diagnosed (he : e.WellFormed) : e.Diagnosed := by
  refine ⟨he.sorted, fun p hp => ?_, he.flags, he.construct_self⟩
  obtain ⟨a, hdecl, hv⟩ := he.stored p hp
  exact ⟨a, (declaration_eq_ok_iff.mp hdecl).2.2, hv⟩

/-- Instants have no diagnostics. -/
theorem WellFormed.caseDiagnostics_carried {e : Entity} (he : e.WellFormed) :
    e.carried.caseDiagnostics = e.caseDiagnostics := by
  unfold caseDiagnostics Entity.carried
  rw [List.flatMap_map]
  refine List.flatMap_congr fun p hp => ?_
  obtain ⟨a, ha, ds, hv⟩ := he.stored p hp
  have hdecl := (declaration_eq_ok_iff.mp ha).2.2
  have hcarried := attributeDiagnostics_eq hdecl (Value.validate_carried hv)
  exact hcarried.trans (attributeDiagnostics_eq hdecl hv).symm

section Reread

variable {k : Kind} {p q : String × Json} {u v : String × Value} {r : Record}

/-- An attribute that is read from a member, and from this member's own text, has the same
diagnostics: what they are about are texts, which are read as they are written. -/
theorem attributeDiagnostics_of_memberRereads (hpq : Json.MemberRereads p q)
    (hu : Becomes k p u) (hv : Becomes k q v) :
    attributeDiagnostics k v.1 v.2 = attributeDiagnostics k u.1 u.2 := by
  obtain ⟨hname, hread⟩ := hpq
  obtain ⟨hu, a, ha, haname, hdecodes⟩ := hu
  obtain ⟨hv, b, hb, hbname, hdecodes'⟩ := hv
  have hdecl : k.attribute? p.1 = some a := Kind.attribute?_eq_some_iff.mpr ⟨ha, haname⟩
  have hdecl' : k.attribute? p.1 = some b :=
    Kind.attribute?_eq_some_iff.mpr ⟨hb, hbname.trans hname⟩
  cases hdecl.symm.trans hdecl'
  rw [hv, hname, hu]
  cases htype : a.type.enumeration? with
  | none =>
    rw [hdecodes.attributeDiagnostics_eq_nil hdecl htype,
      hdecodes'.attributeDiagnostics_eq_nil hdecl htype]
  | some e =>
    obtain ⟨hregular, hexact⟩ := hdecodes.regular htype
    rw [hread hregular hexact] at hdecodes'
    rw [hdecodes.unique hdecodes']

theorem flatMap_attributeDiagnostics_eq {ms : Record} {us vs : List (String × Value)}
    (hus : List.Forall₂ (Becomes k) ms us)
    (hvs : List.Forall₂ (fun p v => ∃ q, Json.MemberRereads p q ∧ Becomes k q v) ms vs) :
    (vs.flatMap fun v => attributeDiagnostics k v.1 v.2) =
      us.flatMap fun u => attributeDiagnostics k u.1 u.2 := by
  induction hus generalizing vs with
  | nil =>
    cases hvs
    rfl
  | cons hu _ ih =>
    cases hvs with
    | cons hv hrest =>
      obtain ⟨q, hpq, hv⟩ := hv
      rw [List.flatMap_cons, List.flatMap_cons, ih hrest,
        attributeDiagnostics_of_memberRereads hpq hu hv]

theorem forall₂_attributeMembers {m n : Record} (h : List.Forall₂ Json.MemberRereads m n) :
    List.Forall₂ Json.MemberRereads (attributeMembers m) (attributeMembers n) := by
  have hsame (key : String) {p q : String × Json} (hpq : Json.MemberRereads p q) :
      decide (p.1 ≠ key) = true ↔ decide (q.1 ≠ key) = true := by
    rw [hpq.1]
  have hid := List.rel_filter (R := Json.MemberRereads) (fun _ _ => hsame idField) h
  exact List.rel_filter (R := Json.MemberRereads) (fun _ _ => hsame kindField) hid

/-- What is read from the text of an entity's record has the diagnostics of the entity. -/
theorem WellFormed.caseDiagnostics_of_reread (he : e.WellFormed)
    (hr : List.Forall₂ Json.MemberRereads e.toRecord r) (hf : Entity.ofRecord r = .ok f) :
    f.caseDiagnostics = e.caseDiagnostics := by
  have hsorted : Assoc.Sorted r := he.sorted_toRecord.of_forall₂ (fun _ _ => And.left) hr
  obtain ⟨hkind, -, -, hread, -⟩ := (ofRecord_eq_ok_iff_becomes hsorted).mp hf
  obtain ⟨hkind', -, -, hread', -⟩ :=
    (ofRecord_eq_ok_iff_becomes he.sorted_toRecord).mp he.ofRecord_toRecord
  have hsame : f.kind = e.kind := by
    rcases Assoc.find?_of_forall₂ (fun _ _ => And.left) hr kindField with
      ⟨hnone, -⟩ | ⟨j, j', hj, hj', -, hreread⟩
    · rw [hkind'] at hnone
      cases hnone
    · rw [hkind'] at hj
      rw [hkind] at hj'
      cases hj
      cases hj'
      exact Kind.name_injective (Json.str.inj (hreread rfl rfl))
  rw [hsame] at hread
  have hvs := forall₂_comp_iff.mp ⟨_, forall₂_attributeMembers hr, hread⟩
  rw [← he.caseDiagnostics_carried]
  unfold caseDiagnostics
  rw [hsame]
  exact flatMap_attributeDiagnostics_eq hread' hvs

end Reread

end Entity

end EntityStore
