import EntityStore.Proofs.Entity.Construct
import EntityStore.Proofs.Entity.Same
import EntityStore.Proofs.Time.Grammar
import EntityStore.Proofs.Time.Order

/-! Timestamps in records: entities of records that differ in one text are told apart by the
instants of the texts, and clauses compare these instants. -/
namespace EntityStore

section Replace

variable {a : Attribute} {e f : Entity} {j : Json} {r : Record} {w : Value}

theorem Entity.attributeMembers_insert (hr : Assoc.Sorted r) {k : Kind} (ha : a ∈ k.attributes) :
    Entity.attributeMembers (Assoc.insert a.name j r) =
      Assoc.insert a.name j (Entity.attributeMembers r) := by
  unfold attributeMembers
  rw [hr.erase_insert_of_ne (Kind.ne_idField_of_mem_attributes ha),
    (hr.erase idField).erase_insert_of_ne (Kind.ne_kindField_of_mem_attributes ha)]

/-- A value of its declaration in place of another one leaves an entity well formed. -/
theorem Entity.WellFormed.put (he : e.WellFormed) (ha : a ∈ e.kind.attributes)
    (hw : Value.Decodes a j w) : (e.put a.name w).WellFormed := by
  obtain ⟨v, ds, -, hcheck⟩ := hw
  have hpass : Passes e.kind (a.name, w) w ds := ⟨a, ha, rfl, Value.validate_validate hcheck⟩
  exact he.set (set_eq_ok_iff_passes.mpr ⟨w, hpass, rfl⟩)

/-- A member in place of another one, or a new one, that can be read as a value. -/
theorem Entity.ofRecord_insert (hr : Assoc.Sorted r) (he : Entity.ofRecord r = .ok e)
    (ha : a ∈ e.kind.attributes) (hw : Value.Decodes a j w) :
    Entity.ofRecord (Assoc.insert a.name j r) = .ok (e.put a.name w) := by
  obtain ⟨hk, hi, hvalid, hbecomes, -⟩ := (ofRecord_eq_ok_iff_becomes hr).mp he
  have hwell := (WellFormed.ofRecord he).put ha hw
  have hmember : Becomes e.kind (a.name, j) (a.name, w) := ⟨rfl, a, ha, rfl, hw⟩
  refine (ofRecord_eq_ok_iff_becomes (hr.insert _ _)).mpr ⟨?_, ?_, hvalid, ?_, hwell.complete⟩
  · rw [Assoc.find?_insert_of_ne (Kind.ne_kindField_of_mem_attributes ha).symm, hk, kind_put]
  · rw [Assoc.find?_insert_of_ne (Kind.ne_idField_of_mem_attributes ha).symm, hi, id_put]
  · rw [attributeMembers_insert hr ha]
    exact Assoc.forall₂_insert (fun _ _ => And.left) hbecomes hmember

/-- The member of a declared attribute can be read as a value of it. -/
theorem Entity.exists_decodes_of_ofRecord_insert (hr : Assoc.Sorted r) {k : Kind}
    (hk : Assoc.find? kindField r = some (.str k.name)) (ha : a ∈ k.attributes)
    (hf : Entity.ofRecord (Assoc.insert a.name j r) = .ok f) : ∃ w, Value.Decodes a j w := by
  obtain ⟨hk', -, -, hbecomes, -⟩ := (ofRecord_eq_ok_iff_becomes (hr.insert _ _)).mp hf
  rw [Assoc.find?_insert_of_ne (Kind.ne_kindField_of_mem_attributes ha).symm, hk, Option.some_inj,
    Json.str.injEq] at hk'
  rw [attributeMembers_insert hr ha, ← Kind.name_injective hk'] at hbecomes
  have hfound := Assoc.find?_insert_self a.name j (attributeMembers r)
  rcases Assoc.find?_of_forall₂ (fun _ _ => And.left) hbecomes a.name with
    ⟨hnone, -⟩ | ⟨j', w, hj, -, -, b, hb, hname, hw⟩
  · rw [hfound] at hnone
    cases hnone
  · -- The kind declares the name once.
    have hdecl := Kind.attribute?_eq_some_iff.mpr ⟨hb, hname⟩
    cases hdecl.symm.trans (Kind.attribute?_eq_some_iff.mpr ⟨ha, rfl⟩)
    cases hfound.symm.trans hj
    exact ⟨w, hw⟩

/-- A member in place of another one, or a new one, changes the attribute that it is read as. -/
theorem Entity.ofRecord_insert_eq_ok_iff (hr : Assoc.Sorted r) (he : Entity.ofRecord r = .ok e)
    (ha : a ∈ e.kind.attributes) : Entity.ofRecord (Assoc.insert a.name j r) = .ok f ↔
      ∃ w, Value.Decodes a j w ∧ f = e.put a.name w := by
  constructor
  · intro hf
    have hk := ((ofRecord_eq_ok_iff_becomes hr).mp he).1
    obtain ⟨w, hw⟩ := exists_decodes_of_ofRecord_insert hr hk ha hf
    cases hf.symm.trans (ofRecord_insert hr he ha hw)
    exact ⟨w, hw, rfl⟩
  · rintro ⟨w, hw, rfl⟩
    exact ofRecord_insert hr he ha hw

end Replace

section Timestamps

variable {a : Attribute} {e f : Entity} {r : Record} {s : String} {t u : Timestamp} {w : Value}

/-- The years that instants of records stand in. -/
def Timestamp.InRange (t : Timestamp) : Prop := 0 ≤ t.date.year ∧ t.date.year ≤ 9999

/-- A text is taken for a timestamp if it denotes an instant in the years 0 to 9999. -/
theorem Value.decodes_timestamp_iff (htype : a.type = .timestamp) :
    Value.Decodes a (.str s) w ↔ ∃ t : Timestamp, t.Denotes s ∧ t.InRange ∧ w = .timestamp t := by
  obtain ⟨name, type, required⟩ := a
  cases htype
  constructor
  · rintro ⟨v, ds, hread, hcheck⟩
    obtain ⟨t, hparse, rfl⟩ := Option.map_eq_some_iff.mp (Except.elim_eq_ok_iff.mp hread)
    cases admits_of_validate hcheck with
    | timestamp t hrange => exact ⟨t, Timestamp.parse?_eq_some_iff.mp hparse, hrange, rfl⟩
  · rintro ⟨t, hdenotes, hrange, rfl⟩
    have hparse := Timestamp.parse?_eq_some_iff.mpr hdenotes
    refine ⟨.timestamp t, [], ?_, validate_of_admits (.timestamp t hrange)⟩
    exact Except.elim_eq_ok_iff.mpr (Option.map_eq_some_iff.mpr ⟨t, hparse, rfl⟩)

/-- Instants that clocks show in the years 0 to 9999 have texts of their own. -/
theorem Timestamp.render_injective (ht : t.InRange) (hu : u.InRange) (htClock : t.OnClock)
    (huClock : u.OnClock) (h : t.render = u.render) : t = u := by
  have hread := parse?_render t ht.1 ht.2
  rw [h, parse?_render u hu.1 hu.2, carried_of_onClock htClock, carried_of_onClock huClock] at hread
  exact (Option.some_inj.mp hread).symm

theorem Timestamp.Denotes.unique (ht : t.Denotes s) (hu : u.Denotes s) : t = u := by
  have hread := parse?_eq_some_iff.mpr ht
  rw [parse?_eq_some_iff.mpr hu] at hread
  exact (Option.some_inj.mp hread).symm

/-- The JSON form of an attribute, from the records of two entities. -/
theorem Entity.toJson_eq_of_toRecord_eq {v : Value} {k : Kind} (ha : a ∈ k.attributes)
    (h : e.toRecord = f.toRecord) (hv : e.get? a.name = some v) (hw : f.get? a.name = some w) :
    v.toJson = w.toJson := by
  have hfound := congrArg (Assoc.find? a.name) h
  rw [find?_toRecord, find?_toRecord, if_neg (Kind.ne_idField_of_mem_attributes ha),
    if_neg (Kind.ne_kindField_of_mem_attributes ha),
    if_neg (Kind.ne_idField_of_mem_attributes ha),
    if_neg (Kind.ne_kindField_of_mem_attributes ha), hv, hw] at hfound
  exact Option.some_inj.mp hfound

/-- The text of a timestamp replaced by one that denotes another instant replaces the instant. -/
theorem Entity.ofRecord_insert_timestamp_iff (hr : Assoc.Sorted r)
    (he : Entity.ofRecord (Assoc.insert a.name (.str s) r) = .ok e) (ha : a ∈ e.kind.attributes)
    (htype : a.type = .timestamp) {s' : String} :
    Entity.ofRecord (Assoc.insert a.name (.str s') r) = .ok f ↔
      ∃ u : Timestamp, u.Denotes s' ∧ u.InRange ∧ f = e.put a.name (.timestamp u) := by
  have hsorted : Assoc.Sorted (Assoc.insert a.name (.str s) r) := hr.insert _ _
  rw [← Assoc.insert_insert a.name (.str s') (.str s) r, ofRecord_insert_eq_ok_iff hsorted he ha]
  constructor
  · rintro ⟨w, hw, rfl⟩
    obtain ⟨u, hu, hrange, rfl⟩ := (Value.decodes_timestamp_iff htype).mp hw
    exact ⟨u, hu, hrange, rfl⟩
  · rintro ⟨u, hu, hrange, rfl⟩
    exact ⟨_, (Value.decodes_timestamp_iff htype).mpr ⟨u, hu, hrange, rfl⟩, rfl⟩

/-- Entities that differ in one instant at most are told apart by it, and so are their records. -/
theorem Entity.Sound.eq_iff_of_timestamp (hsound : e.Sound) (ha : a ∈ e.kind.attributes)
    (ht : t.InRange) (hu : u.InRange) (htClock : t.OnClock) (huClock : u.OnClock)
    (he : e = e.put a.name (.timestamp t)) (hf : f = e.put a.name (.timestamp u)) :
    (e = f ↔ t = u) ∧ (e.toRecord = f.toRecord ↔ t = u) ∧
      (e.Finite → (e.same f = true ↔ t = u)) := by
  have hget : e.get? a.name = some (.timestamp t) := he ▸ get?_put_self e a.name _
  have hgetf : f.get? a.name = some (.timestamp u) := hf ▸ get?_put_self e a.name _
  have hequal : t = u → e = f := by
    rintro rfl
    rw [hf]
    exact he
  refine ⟨⟨fun heq => ?_, hequal⟩, ⟨fun heq => ?_, fun heq => ?_⟩,
    fun hfinite => ⟨fun hsame => ?_, fun heq => ?_⟩⟩
  · rw [heq, hgetf] at hget
    cases hget
    rfl
  · have hjson := toJson_eq_of_toRecord_eq ha heq hget hgetf
    exact Timestamp.render_injective ht hu htClock huClock (Json.str.inj hjson)
  · rw [hequal heq]
  · exact beq_iff_eq.mp (same_of_same hsame hget hgetf)
  · rw [← hequal heq]
    exact hsound.same_self hfinite

/-- A clause compares an instant with the one that its literal denotes. -/
theorem Clause.holds_timestamp_iff (ha : a ∈ e.kind.attributes)
    (hget : e.get? a.name = some (.timestamp t)) (ht : t.OnClock) {literal : Literal}
    (hu : u.Denotes literal.text) (op : Operator) :
    Clause.holds ⟨a.name, op, literal⟩ e = true ↔ op.Relates t.clock u.clock := by
  have hsubject : a.name ≠ idField ∧ a.name ≠ kindField :=
    ⟨Kind.ne_idField_of_mem_attributes ha, Kind.ne_kindField_of_mem_attributes ha⟩
  have hcompare : Value.compareLiteral (.timestamp t) literal.text = some (t.order u) := by
    rw [Value.compareLiteral, Timestamp.parse?_eq_some_iff.mpr hu]
    rfl
  exact Clause.holds_iff_relates (c := ⟨a.name, op, literal⟩) hsubject hget hcompare
    (Timestamp.orders_clock ht hu.onClock)

/-- A record whose text for a timestamp is replaced gives an entity exactly if the new text denotes
an instant in the years 0 to 9999. The entity and its record are the same as before exactly if the
instant is, and clauses order the instants as clocks in UTC show them. -/
theorem Entity.ofRecord_timestamp (hr : Assoc.Sorted r)
    (he : Entity.ofRecord (Assoc.insert a.name (.str s) r) = .ok e) (ha : a ∈ e.kind.attributes)
    (htype : a.type = .timestamp) :
    ∃ t : Timestamp, t.Denotes s ∧ t.InRange ∧ ∀ s',
      ((∃ f, Entity.ofRecord (Assoc.insert a.name (.str s') r) = .ok f) ↔
        ∃ u : Timestamp, u.Denotes s' ∧ u.InRange) ∧
      ∀ u : Timestamp, u.Denotes s' →
        (∀ f, Entity.ofRecord (Assoc.insert a.name (.str s') r) = .ok f →
          (e = f ↔ t = u) ∧ (e.toRecord = f.toRecord ↔ t = u) ∧
            (e.Finite → (e.same f = true ↔ t = u))) ∧
        ∀ op literal, literal.text = s' →
          (Clause.holds ⟨a.name, op, literal⟩ e = true ↔ op.Relates t.clock u.clock) := by
  obtain ⟨t, ht, hrange, het⟩ := (ofRecord_insert_timestamp_iff hr he ha htype).mp he
  have hget : e.get? a.name = some (.timestamp t) := het ▸ get?_put_self e a.name _
  refine ⟨t, ht, hrange, fun s' => ⟨⟨?_, ?_⟩, fun u hu => ⟨fun f hf => ?_, ?_⟩⟩⟩
  · rintro ⟨f, hf⟩
    obtain ⟨u, hu, hrange', -⟩ := (ofRecord_insert_timestamp_iff hr he ha htype).mp hf
    exact ⟨u, hu, hrange'⟩
  · rintro ⟨u, hu, hrange'⟩
    exact ⟨_, (ofRecord_insert_timestamp_iff hr he ha htype).mpr ⟨u, hu, hrange', rfl⟩⟩
  · obtain ⟨u', hu', hrange', hfu⟩ := (ofRecord_insert_timestamp_iff hr he ha htype).mp hf
    cases hu.unique hu'
    exact (WellFormed.ofRecord he).toSound.eq_iff_of_timestamp ha hrange hrange' ht.onClock
      hu.onClock het hfu
  · rintro op literal rfl
    exact Clause.holds_timestamp_iff ha hget ht.onClock hu op

/-- An attack that has no time yet. -/
def attack : Record := [
  ("id", .str "cd613e30-d8f1-4adf-91b7-584a2265b1f5"), ("kind", .str "CyberAttack")]

/-- The leap second at the end of 2016. -/
def leapSecond : Timestamp := ⟨1483228799, 1123456789, by decide⟩

theorem denotes_leapSecond : leapSecond.Denotes "2016-12-31 23:59:60.123456789z" ∧
    leapSecond.Denotes "2017-01-01T01:29:60.1234567899+01:30" :=
  ⟨Timestamp.parse?_eq_some_iff.mp (by decide +kernel),
    Timestamp.parse?_eq_some_iff.mp (by decide +kernel)⟩

theorem Entity.ofRecord_leapSecond : ∃ e f,
    Entity.ofRecord (Assoc.insert "event_time" (.str "2016-12-31 23:59:60.123456789z") attack) =
      .ok e ∧
    Entity.ofRecord (Assoc.insert "event_time" (.str "2017-01-01T01:29:60.1234567899+01:30")
      attack) = .ok f ∧ e = f ∧ e.same f = true ∧
    Clause.holds ⟨"event_time", .lt, .quoted "2017-01-01T00:00:00Z"⟩ e = true := by
  obtain ⟨e, he, hkind, hfinite⟩ : ∃ e, Entity.ofRecord (Assoc.insert "event_time"
      (.str "2016-12-31 23:59:60.123456789z") attack) = .ok e ∧ e.kind = .cyberAttack ∧ e.Finite :=
    ⟨_, rfl, rfl, by decide +kernel⟩
  have hsorted : Assoc.Sorted attack := by decide
  have ha : ⟨"event_time", .timestamp, false⟩ ∈ e.kind.attributes := by
    rw [hkind]
    decide
  obtain ⟨t, ht, -, hall⟩ := Entity.ofRecord_timestamp hsorted he ha rfl
  cases ht.unique denotes_leapSecond.1
  have hnext : (⟨1483228800, 0, by decide⟩ : Timestamp).Denotes "2017-01-01T00:00:00Z" :=
    Timestamp.parse?_eq_some_iff.mp (by decide +kernel)
  have hbefore : leapSecond.clock < Timestamp.clock ⟨1483228800, 0, by decide⟩ := by decide +kernel
  obtain ⟨f, hf⟩ := (hall "2017-01-01T01:29:60.1234567899+01:30").1.mpr
    ⟨leapSecond, denotes_leapSecond.2, by decide +kernel, by decide +kernel⟩
  have hequal := ((hall _).2 leapSecond denotes_leapSecond.2).1 f hf
  refine ⟨e, f, he, hf, hequal.1.mpr rfl, (hequal.2.2 hfinite).mpr rfl, ?_⟩
  exact (((hall _).2 _ hnext).2 .lt (.quoted "2017-01-01T00:00:00Z") rfl).mpr hbefore

end Timestamps

end EntityStore
