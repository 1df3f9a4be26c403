import EntityStore.Proofs.Entity.Origin
import EntityStore.Proofs.Json.Basic
import EntityStore.Proofs.Number.Nearest
import EntityStore.Proofs.Time.Grammar

/-! Which records there are entities of, and what becomes of their values. -/
namespace EntityStore

namespace Value

/-- The values of records that a type admits. -/
inductive Suits : AttributeType → Json → Prop
  | string (s : String) : Suits .string (.str s)
  | boolean (b : Bool) : Suits .boolean (.bool b)
  | integer (n : ℤ) (h : -2 ^ 63 ≤ n ∧ n < 2 ^ 63) : Suits .integer (.int n)
  | whole (n : ℤ) : Suits .float (.int n)
  | float (x : Binary64) (h : x.isFinite = true) : Suits .float (.float x)
  | timestamp (s : String) (t : Timestamp) (h : t.Denotes s)
      (hyear : 0 ≤ t.date.year ∧ t.date.year ≤ 9999) : Suits .timestamp (.str s)
  | duration (n : ℤ) (h : -2 ^ 63 < n ∧ n < 2 ^ 63) : Suits .duration (.int n)
  | list (items : List Json) : Suits .list (.arr items)
  | stringList (ts : List String) : Suits .stringList (.arr (ts.map .str))
  | mapping (members : List (String × Json)) : Suits .mapping (.obj members)
  | option (e : Enumeration) (s : String) (h : e.Allows s) : Suits (.option e) (.str s)
  | optionList (e : Enumeration) (ts : List String) (h : ∀ s ∈ ts, e.Allows s) :
      Suits (.optionList e) (.arr (ts.map .str))

/-- What a type makes of a value that it admits: whole numbers become the nearest floats, and
instants get their canonical texts. -/
def Rewritten (type : AttributeType) (j j' : Json) : Prop :=
  match type, j with
  | .float, .int n => ∃ x : Binary64, x.Nearest n ∧ j' = .float x
  | .timestamp, .str s => ∃ t : Timestamp, t.Denotes s ∧ t.Denotes t.render ∧ j' = .str t.render
  | _, _ => j' = j

variable {a : Attribute} {j : Json} {v w : Value} {ds : List CaseDiagnostic}

/-- A value of a record is read as one that is stored as another. -/
def Decodes (a : Attribute) (j : Json) (w : Value) : Prop :=
  ∃ v ds, ofJson a j = .ok v ∧ v.validate a = .ok (w, ds)

theorem toInt_of_int64? {n : ℤ} {i : Int64} (h : Numeral.int64? n = some i) :
    (-2 ^ 63 ≤ n ∧ n < 2 ^ 63) ∧ i.toInt = n := by
  unfold Numeral.int64? at h
  split_ifs at h with hn
  cases h
  exact ⟨hn, Int64.toInt_ofInt_of_le hn.1 hn.2⟩

theorem exists_int64? {n : ℤ} (h : -2 ^ 63 ≤ n ∧ n < 2 ^ 63) : ∃ i, Numeral.int64? n = some i :=
  ⟨_, if_pos h⟩

theorem milliseconds_of_ofMilliseconds? {n : ℤ} {d : Span} (h : Span.ofMilliseconds? n = some d) :
    (-2 ^ 63 < n ∧ n < 2 ^ 63) ∧ d.truncate.milliseconds = n := by
  unfold Span.ofMilliseconds? Span.ofNanoseconds? at h
  split_ifs at h with hn
  cases h
  unfold Span.limit at hn
  refine ⟨by omega, ?_⟩
  rw [Span.milliseconds_truncate]
  exact Int.mul_tdiv_cancel n (by decide)

theorem exists_ofMilliseconds? {n : ℤ} (h : -2 ^ 63 < n ∧ n < 2 ^ 63) :
    ∃ d, Span.ofMilliseconds? n = some d := by
  have hbounded : -Span.limit ≤ n * 1000000 ∧ n * 1000000 ≤ Span.limit := by
    unfold Span.limit
    omega
  exact ⟨_, dif_pos hbounded⟩

theorem natAbs_lt_of_isRegular {n : ℤ} (h : (Json.int n).isRegular = true) : n.natAbs < 2 ^ 64 := by
  obtain ⟨hlo, hhi⟩ := Bool.and_eq_true_iff.mp h
  have hlo' := of_decide_eq_true hlo
  have hhi' := of_decide_eq_true hhi
  unfold Numeral.int64Limit at hlo'
  unfold Json.unsignedLimit at hhi'
  omega

theorem Decodes.spec (hj : j.isRegular = true) (h : Decodes a j w) :
    Suits a.type j ∧ Rewritten a.type j w.toJson := by
  obtain ⟨v, ds, hread, hcheck⟩ := h
  obtain ⟨name, type, required⟩ := a
  have hadmits := validate_eq_ok_iff.mp hcheck
  unfold ofJson at hread
  dsimp only at hread hadmits ⊢
  split at hread
  · cases hread
    cases hadmits
    exact ⟨.string _, rfl⟩
  · cases hread
    cases hadmits with
    | option _ _ d hd => exact ⟨.option _ _ (Enumeration.exists_check_iff.mp ⟨d, hd⟩), rfl⟩
  · cases hread
    cases hadmits
    exact ⟨.boolean _, rfl⟩
  · obtain ⟨i, hi, rfl⟩ := Option.map_eq_some_iff.mp (Except.elim_eq_ok_iff.mp hread)
    obtain ⟨hrange, rfl⟩ := toInt_of_int64? hi
    cases hadmits
    exact ⟨.integer _ hrange, rfl⟩
  · cases hread
    have hnearest := Binary64.nearest_ofInt (natAbs_lt_of_isRegular hj)
    cases hadmits
    refine ⟨.whole _, _, hnearest, ?_⟩
    exact if_pos hnearest.finite
  · cases hread
    cases hadmits with
    | float _ hx => exact ⟨.float _ hx, if_pos hx⟩
  · obtain ⟨t, ht, rfl⟩ := Option.map_eq_some_iff.mp (Except.elim_eq_ok_iff.mp hread)
    have hdenotes := Timestamp.parse?_eq_some_iff.mp ht
    cases hadmits with
    | timestamp t hyear =>
      have hback := t.parse?_render hyear.1 hyear.2
      rw [Timestamp.carried_of_onClock hdenotes.onClock] at hback
      have hself := Timestamp.parse?_eq_some_iff.mp hback
      exact ⟨.timestamp _ t hdenotes hyear, t, hdenotes, hself, rfl⟩
  · obtain ⟨d, hd, rfl⟩ := Option.map_eq_some_iff.mp (Except.elim_eq_ok_iff.mp hread)
    obtain ⟨hrange, hmilliseconds⟩ := milliseconds_of_ofMilliseconds? hd
    cases hadmits
    exact ⟨.duration _ hrange, congrArg Json.int hmilliseconds⟩
  · cases hread
    cases hadmits
    exact ⟨.list _, rfl⟩
  · cases hread
    cases hadmits with
    | stringList items ts ht =>
      cases texts_eq_ok_iff.mp ht
      exact ⟨.stringList ts, rfl⟩
  · cases hread
    cases hadmits with
    | optionList _ _ ts ds ht hd =>
      cases texts_eq_ok_iff.mp ht
      exact ⟨.optionList _ ts (Enumeration.exists_checkAll_iff.mp ⟨ds, hd⟩), rfl⟩
  · cases hread
    cases hadmits
    exact ⟨.mapping _, rfl⟩
  · cases hread

theorem Suits.exists_decodes (hj : j.isRegular = true) (h : Suits a.type j) :
    ∃ w, Decodes a j w := by
  obtain ⟨name, type, required⟩ := a
  unfold Decodes
  simp only [validate_eq_ok_iff]
  cases h with
  | string s => exact ⟨_, _, _, rfl, .string s⟩
  | boolean b => exact ⟨_, _, _, rfl, .boolean b⟩
  | integer n h =>
    obtain ⟨i, hi⟩ := exists_int64? h
    refine ⟨_, _, _, Except.elim_eq_ok_iff.mpr ?_, .integer i⟩
    rw [hi, Option.map_some]
  | whole n =>
    have hnearest := Binary64.nearest_ofInt (natAbs_lt_of_isRegular hj)
    exact ⟨_, _, _, rfl, .float _ hnearest.finite⟩
  | float x hx => exact ⟨_, _, _, rfl, .float x hx⟩
  | timestamp s t h hyear =>
    have ht := Timestamp.parse?_eq_some_iff.mpr h
    refine ⟨_, _, _, Except.elim_eq_ok_iff.mpr ?_, .timestamp t hyear⟩
    rw [ht, Option.map_some]
  | duration n h =>
    obtain ⟨d, hd⟩ := exists_ofMilliseconds? h
    refine ⟨_, _, _, Except.elim_eq_ok_iff.mpr ?_, .duration d⟩
    rw [hd, Option.map_some]
  | list items => exact ⟨_, _, _, rfl, .list items⟩
  | stringList ts => exact ⟨_, _, _, rfl, .stringList _ ts (texts_eq_ok_iff.mpr rfl)⟩
  | mapping members => exact ⟨_, _, _, rfl, .mapping members⟩
  | option e s h =>
    obtain ⟨d, hd⟩ := Enumeration.exists_check_iff.mpr h
    exact ⟨_, _, _, rfl, .option e s d hd⟩
  | optionList e ts h =>
    obtain ⟨ds, hds⟩ := Enumeration.exists_checkAll_iff.mpr h
    exact ⟨_, _, _, rfl, .optionList e _ ts ds (texts_eq_ok_iff.mpr rfl) hds⟩

end Value

section Pairs

variable {α β γ : Type}

theorem forall₂_comp_iff {R : α → β → Prop} {S : β → γ → Prop} {xs : List α} {zs : List γ} :
    (∃ ys, List.Forall₂ R xs ys ∧ List.Forall₂ S ys zs) ↔
      List.Forall₂ (fun x z => ∃ y, R x y ∧ S y z) xs zs := by
  constructor
  · rintro ⟨ys, hR, hS⟩
    induction hR generalizing zs with
    | nil =>
      cases hS
      exact .nil
    | cons hxy _ ih =>
      cases hS with
      | cons hyz hrest => exact .cons ⟨_, hxy, hyz⟩ (ih hrest)
  · intro h
    induction h with
    | nil => exact ⟨[], .nil, .nil⟩
    | cons hxz _ ih =>
      obtain ⟨y, hxy, hyz⟩ := hxz
      obtain ⟨ys, hR, hS⟩ := ih
      exact ⟨y :: ys, .cons hxy hR, .cons hyz hS⟩

end Pairs

namespace Entity

variable {k : Kind} {r : Record} {e : Entity}

/-- The members of a record that stand for attributes. -/
def attributeMembers (r : Record) : Record := Assoc.erase kindField (Assoc.erase idField r)

theorem mem_attributeMembers_iff {p : String × Json} :
    p ∈ attributeMembers r ↔ p ∈ r ∧ p.1 ≠ idField ∧ p.1 ≠ kindField := by
  unfold attributeMembers
  rw [Assoc.mem_erase, Assoc.mem_erase, and_assoc]

theorem find?_attributeMembers {key : String} (hid : key ≠ idField) (hkind : key ≠ kindField) :
    Assoc.find? key (attributeMembers r) = Assoc.find? key r := by
  unfold attributeMembers
  rw [Assoc.find?_erase_of_ne hkind, Assoc.find?_erase_of_ne hid]

theorem attributeMembers_cons (p : String × Json) (r : Record) :
    attributeMembers (p :: r) =
      if p.1 = idField ∨ p.1 = kindField then attributeMembers r else p :: attributeMembers r := by
  unfold attributeMembers Assoc.erase
  by_cases hid : p.1 = idField
  · simp [hid]
  · by_cases hkind : p.1 = kindField <;> simp [hid, hkind]

/-- A member of a record, and the attribute that it is read as. -/
def Reads (k : Kind) (p : String × Json) (q : String × Value) : Prop :=
  q.1 = p.1 ∧ ∃ a, k.attribute? p.1 = some a ∧ Value.ofJson a p.2 = .ok q.2

theorem readAttributes_eq_ok_iff {vs : List (String × Value)} :
    readAttributes k r = .ok vs ↔ List.Forall₂ (Reads k) (attributeMembers r) vs := by
  induction r generalizing vs with
  | nil => simp [readAttributes, attributeMembers, Assoc.erase, eq_comm]
  | cons p rest ih =>
    obtain ⟨name, j⟩ := p
    rw [readAttributes, attributeMembers_cons]
    split_ifs with hname
    · exact ih
    constructor
    · intro h
      cases hdecl : k.attribute? name with
      | none =>
        rw [hdecl] at h
        cases h
      | some a =>
        rw [hdecl] at h
        obtain ⟨v, hv, h⟩ := Except.bind_eq_ok_iff.mp h
        obtain ⟨rest', hrest, h⟩ := Except.bind_eq_ok_iff.mp h
        cases h
        exact .cons ⟨rfl, a, hdecl, hv⟩ (ih.mp hrest)
    · intro h
      cases h with
      | @cons _ q _ rest' hq hrest =>
        obtain ⟨_, v⟩ := q
        obtain ⟨rfl, a, hdecl, hv⟩ := hq
        simp [hdecl, hv, ih.mpr hrest]

/-- A member of a record, and the attribute that it becomes. -/
def Becomes (k : Kind) (p : String × Json) (q : String × Value) : Prop :=
  q.1 = p.1 ∧ ∃ a ∈ k.attributes, a.name = p.1 ∧ Value.Decodes a p.2 q.2

theorem becomes_iff {e : Entity} {p : String × Json} {q : String × Value} :
    (∃ v, Reads e.kind p v ∧ e.Stores v q) ↔ Becomes e.kind p q := by
  constructor
  · rintro ⟨⟨_, v⟩, ⟨rfl, a, hdecl, hread⟩, hname, b, ds, hb, hcheck⟩
    obtain ⟨-, -, hb⟩ := declaration_eq_ok_iff.mp hb
    cases hdecl.symm.trans hb
    obtain ⟨ha, haname⟩ := Kind.attribute?_eq_some_iff.mp hdecl
    exact ⟨hname, a, ha, haname, v, ds, hread, hcheck⟩
  · rintro ⟨hname, a, ha, haname, v, ds, hread, hcheck⟩
    have hdecl := Kind.attribute?_eq_some_iff.mpr ⟨ha, haname⟩
    have hid : p.1 ≠ idField := haname ▸ Kind.ne_idField_of_mem_attributes ha
    have hkind : p.1 ≠ kindField := haname ▸ Kind.ne_kindField_of_mem_attributes ha
    exact ⟨(p.1, v), ⟨rfl, a, hdecl, hread⟩, hname, a, ds,
      declaration_eq_ok_iff.mpr ⟨hid, hkind, hdecl⟩, hcheck⟩

/-- The entity of a record has its kind, its id, and an attribute for each of the other members. -/
theorem ofRecord_eq_ok_iff_becomes (hr : Assoc.Sorted r) :
    ofRecord r = .ok e ↔ Assoc.find? kindField r = some (.str e.kind.name) ∧
      Assoc.find? idField r = some (.str e.id) ∧ Id.valid e.kind e.id = true ∧
        List.Forall₂ (Becomes e.kind) (attributeMembers r) e.attributes ∧ e.missing? = none := by
  have hmembers : Assoc.Sorted (attributeMembers r) := (hr.erase _).erase _
  have hkeys {k : Kind} {vs : List (String × Value)}
      (h : List.Forall₂ (Reads k) (attributeMembers r) vs) :
      (vs.map Prod.fst).Pairwise (· < ·) :=
    List.pairwise_map.mpr (hmembers.of_forall₂ (fun _ _ => And.left) h)
  rw [ofRecord_eq_ok_iff]
  constructor
  -- All members are read before one is set, so the two passes are matched member by member.
  · rintro ⟨k, id, vs, ds, hkind, hid, hread, hconstruct⟩
    obtain ⟨hvalid, hset, hcomplete⟩ := construct_eq_ok_iff.mp hconstruct
    have hreads := readAttributes_eq_ok_iff.mp hread
    obtain ⟨stored, hstored, rfl⟩ :=
      (setAll_eq_ok_iff (e := ⟨id, k, []⟩) (hkeys hreads)).mp ⟨ds, hset⟩
    refine ⟨hkind, hid, hvalid id rfl, ?_, hcomplete⟩
    exact (forall₂_comp_iff.mp ⟨vs, hreads, hstored⟩).imp fun p q => becomes_iff.mp
  · rintro ⟨hkind, hid, hvalid, hbecomes, hcomplete⟩
    obtain ⟨vs, hreads, hstored⟩ := forall₂_comp_iff.mpr
      (hbecomes.imp fun p q => (becomes_iff (e := ⟨e.id, e.kind, []⟩)).mpr)
    obtain ⟨ds, hset⟩ := (setAll_eq_ok_iff (e := ⟨e.id, e.kind, []⟩) (hkeys hreads)).mpr
      ⟨e.attributes, hstored, rfl⟩
    refine ⟨e.kind, e.id, vs, ds, hkind, hid, readAttributes_eq_ok_iff.mpr hreads, ?_⟩
    exact construct_eq_ok_iff.mpr ⟨fun _ h => Option.mem_some.mp h ▸ hvalid, hset, hcomplete⟩

/-- What a record of a kind with an id must be. -/
structure Fits (k : Kind) (id : String) (r : Record) : Prop where
  kind_eq : Assoc.find? kindField r = some (.str k.name)
  id_eq : Assoc.find? idField r = some (.str id)
  id_ok : Id.validate k id = .ok ()
  declared : ∀ p ∈ r, p.1 ≠ idField → p.1 ≠ kindField →
    ∃ a ∈ k.attributes, a.name = p.1 ∧ Value.Suits a.type p.2
  complete : ∀ a ∈ k.attributes, a.required = true → a.name ∈ r.map Prod.fst

/-- What becomes of a value under a key: that of an attribute is rewritten for its type. -/
def RewrittenAt (k : Kind) (key : String) (j j' : Json) : Prop :=
  match k.attribute? key with
  | some a => Value.Rewritten a.type j j'
  | none => j' = j

theorem attribute?_eq_none {key : String} (h : key = idField ∨ key = kindField) (k : Kind) :
    k.attribute? key = none := by
  cases hdecl : k.attribute? key with
  | none => rfl
  | some a =>
    obtain ⟨ha, hname⟩ := Kind.attribute?_eq_some_iff.mp hdecl
    rcases h with rfl | rfl
    · exact absurd hname (Kind.ne_idField_of_mem_attributes ha)
    · exact absurd hname (Kind.ne_kindField_of_mem_attributes ha)

section Regular

variable (hr : (Json.obj r).every Json.isRegular = true)

include hr

theorem sorted_of_regular : Assoc.Sorted r :=
  of_decide_eq_true (Json.every_obj_iff.mp hr).1

theorem isRegular_of_mem {p : String × Json} (hp : p ∈ r) : p.2.isRegular = true :=
  Json.of_every ((Json.every_obj_iff.mp hr).2 p hp)

theorem fits_of_ofRecord (h : ofRecord r = .ok e) : Fits e.kind e.id r := by
  obtain ⟨hkind, hid, hvalid, hbecomes, hcomplete⟩ :=
    (ofRecord_eq_ok_iff_becomes (sorted_of_regular hr)).mp h
  refine ⟨hkind, hid, Id.validate_eq_ok_iff.mpr hvalid, fun p hp hpid hpkind => ?_,
    fun a ha hreq => ?_⟩
  · have hmem := mem_attributeMembers_iff.mpr ⟨hp, hpid, hpkind⟩
    obtain ⟨q, -, a, ha, hname, hdecodes⟩ := Except.exists_forall₂_iff.mp ⟨_, hbecomes⟩ p hmem
    exact ⟨a, ha, hname, (hdecodes.spec (isRegular_of_mem hr hp)).1⟩
  · have hset := missing?_eq_none_iff.mp hcomplete a ha hreq
    by_contra hnot
    have hnone := Assoc.find?_eq_none_iff.mpr hnot
    rw [← find?_attributeMembers (Kind.ne_idField_of_mem_attributes ha)
      (Kind.ne_kindField_of_mem_attributes ha)] at hnone
    rcases Assoc.find?_of_forall₂ (fun _ _ => And.left) hbecomes a.name with
      ⟨-, habsent⟩ | ⟨j, w, hj, -, -⟩
    · rw [contains, get?, habsent] at hset
      cases hset
    · rw [hnone] at hj
      cases hj

theorem exists_ofRecord {id : String} (h : Fits k id r) : ∃ e, ofRecord r = .ok e := by
  have hall : ∀ p ∈ attributeMembers r, ∃ q, Becomes k p q := by
    intro p hp
    obtain ⟨hpr, hpid, hpkind⟩ := mem_attributeMembers_iff.mp hp
    obtain ⟨a, ha, hname, hsuits⟩ := h.declared p hpr hpid hpkind
    obtain ⟨w, hw⟩ := hsuits.exists_decodes (isRegular_of_mem hr hpr)
    exact ⟨(p.1, w), rfl, a, ha, hname, hw⟩
  obtain ⟨attributes, hbecomes⟩ := Except.exists_forall₂_iff.mpr hall
  refine ⟨⟨id, k, attributes⟩, (ofRecord_eq_ok_iff_becomes (sorted_of_regular hr)).mpr
    ⟨h.kind_eq, h.id_eq, Id.validate_eq_ok_iff.mp h.id_ok, hbecomes, ?_⟩⟩
  refine missing?_eq_none_iff.mpr fun a ha hreq => ?_
  rcases Assoc.find?_of_forall₂ (fun _ _ => And.left) hbecomes a.name with
    ⟨habsent, -⟩ | ⟨j, w, -, hw, -⟩
  · rw [find?_attributeMembers (Kind.ne_idField_of_mem_attributes ha)
      (Kind.ne_kindField_of_mem_attributes ha)] at habsent
    exact absurd (h.complete a ha hreq) (Assoc.find?_eq_none_iff.mp habsent)
  · rw [contains, get?]
    exact hw ▸ rfl

/-- The record of an entity has what the record has that it was made from, rewritten. -/
theorem find?_toRecord_of_ofRecord (h : ofRecord r = .ok e) (key : String) :
    Assoc.find? key r = none ∧ Assoc.find? key e.toRecord = none ∨
      ∃ j j', Assoc.find? key r = some j ∧ Assoc.find? key e.toRecord = some j' ∧
        RewrittenAt e.kind key j j' := by
  obtain ⟨hkind, hid, hvalid, hbecomes, hcomplete⟩ :=
    (ofRecord_eq_ok_iff_becomes (sorted_of_regular hr)).mp h
  unfold RewrittenAt
  by_cases hkey : key = idField ∨ key = kindField
  · refine .inr ?_
    rw [attribute?_eq_none hkey]
    rcases hkey with rfl | rfl
    · exact ⟨_, _, hid, find?_idField_toRecord e, rfl⟩
    · exact ⟨_, _, hkind, find?_kindField_toRecord e, rfl⟩
  · obtain ⟨hkid, hkkind⟩ := not_or.mp hkey
    rw [find?_toRecord, if_neg hkid, if_neg hkkind, ← find?_attributeMembers hkid hkkind, get?]
    rcases Assoc.find?_of_forall₂ (fun _ _ => And.left) hbecomes key with
      ⟨hj, hw⟩ | ⟨j, w, hj, hw, -, a, ha, hname, hdecodes⟩
    · exact .inl ⟨hj, hw ▸ rfl⟩
    · have hmem := (mem_attributeMembers_iff.mp (Assoc.mem_of_find? hj)).1
      have hdecl := Kind.attribute?_eq_some_iff.mpr ⟨ha, hname⟩
      refine .inr ⟨j, w.toJson, hj, hw ▸ rfl, ?_⟩
      rw [hdecl]
      exact (hdecodes.spec (isRegular_of_mem hr hmem)).2

theorem keys_toRecord_of_ofRecord (h : ofRecord r = .ok e) :
    e.toRecord.map Prod.fst = r.map Prod.fst := by
  have hfound (key : String) : Assoc.find? key (e.toRecord.map fun p => (p.1, ())) =
      Assoc.find? key (r.map fun p => (p.1, ())) := by
    rw [Assoc.find?_map fun _ => (), Assoc.find?_map fun _ => ()]
    rcases find?_toRecord_of_ofRecord hr h key with ⟨hj, hj'⟩ | ⟨j, j', hj, hj', -⟩
    · rw [hj, hj']
    · rw [hj, hj']
      rfl
  have hsorted : Assoc.Sorted e.toRecord := (WellFormed.ofRecord h).sorted_toRecord
  have hsame := (hsorted.map fun _ => ()).ext ((sorted_of_regular hr).map fun _ => ()) hfound
  have hkeys := congrArg (List.map Prod.fst) hsame
  rwa [List.map_map, List.map_map] at hkeys

end Regular

/-- There is an entity of a record exactly if the record fits a kind and an id, and then the record
of the entity differs from it only where floats and instants are written in one way. -/
theorem ofRecord_rewrites (r : Record) (hr : (Json.obj r).every Json.isRegular = true) :
    ((∃ e, ofRecord r = .ok e) ↔ ∃ k id, Fits k id r) ∧
      ∀ e, ofRecord r = .ok e → e.toRecord.map Prod.fst = r.map Prod.fst ∧
        ∀ p ∈ r, ∃ j, Assoc.find? p.1 e.toRecord = some j ∧ RewrittenAt e.kind p.1 p.2 j := by
  refine ⟨⟨fun ⟨e, he⟩ => ⟨e.kind, e.id, fits_of_ofRecord hr he⟩,
    fun ⟨k, id, hfits⟩ => exists_ofRecord hr hfits⟩, fun e he =>
      ⟨keys_toRecord_of_ofRecord hr he, fun p hp => ?_⟩⟩
  have hfind := (Assoc.find?_eq_some_iff (sorted_of_regular hr).nodup_keys).mpr hp
  rcases find?_toRecord_of_ofRecord hr he p.1 with ⟨hnone, -⟩ | ⟨j, j', hj, hj', hrewritten⟩
  · rw [hfind] at hnone
    cases hnone
  · rw [hfind] at hj
    cases hj
    exact ⟨j', hj', hrewritten⟩

/-- A record with a leap second at an offset, and a whole number that is no float. -/
def rough : Record := [
  ("event_time", .str "2017-01-01t00:59:60.5+01:00"),
  ("id", .str "6e2f0f2d-bd49-4ed5-b3ab-4e5d8c1a1c05"), ("kind", .str "Disrupt"),
  ("percentage", .int 9007199254740993)]

theorem ofRecord_rewrites_rough : ∃ e, ofRecord rough = .ok e ∧
    e.toRecord.map Prod.fst = ["event_time", "id", "kind", "percentage"] ∧
      ∀ p ∈ rough, ∃ j, Assoc.find? p.1 e.toRecord = some j ∧ RewrittenAt e.kind p.1 p.2 j := by
  obtain ⟨-, hrewrites⟩ := ofRecord_rewrites rough (by decide +kernel)
  obtain ⟨e, he⟩ : ∃ e, ofRecord rough = .ok e := ⟨_, rfl⟩
  exact ⟨e, he, hrewrites e he⟩

end Entity

end EntityStore
