import EntityStore.Proofs.Query.Result
import EntityStore.Proofs.Store.Query

/-! Projections of all: each row is the whole record, and decodes to its entity. -/
namespace EntityStore

namespace Entity

/-- A field of a record is the id, the kind, or an attribute that the kind declares. -/
theorem WellFormed.mem_keys_toRecord {e : Entity} (he : e.WellFormed) {key : String}
    (h : key ∈ e.toRecord.map Prod.fst) :
    key = idField ∨ key = kindField ∨ ∃ a ∈ e.kind.attributes, a.name = key := by
  by_cases hid : key = idField
  · exact .inl hid
  by_cases hkind : key = kindField
  · exact .inr (.inl hkind)
  refine .inr (.inr ?_)
  have hfind : Assoc.find? key e.toRecord = (e.get? key).map Value.toJson := by
    rw [find?_toRecord, if_neg hid, if_neg hkind]
  cases hget : e.get? key with
  | none =>
    rw [hget] at hfind
    exact absurd h (Assoc.find?_eq_none_iff.mp hfind)
  | some v =>
    obtain ⟨a, ha, -⟩ := he.stored (key, v) (Assoc.mem_of_find? hget)
    obtain ⟨-, -, hdecl⟩ := declaration_eq_ok_iff.mp ha
    exact ⟨a, Kind.attribute?_eq_some_iff.mp hdecl⟩

end Entity

namespace Store

variable {s : Store} {t : Tree} {k : Kind} {e : Entity} {kinds : List Kind}

section Headers

/-- The names of the attributes that some kinds declare, each once. -/
def declaredNames (kinds : List Kind) : List String :=
  (kinds.flatMap fun k => k.attributes.map (·.name)).eraseDups

theorem mem_declaredNames_iff {name : String} :
    name ∈ declaredNames kinds ↔ ∃ k ∈ kinds, ∃ a ∈ k.attributes, a.name = name := by
  unfold declaredNames
  rw [List.mem_eraseDups, List.mem_flatMap]
  simp only [List.mem_map]

theorem idField_notMem_declaredNames (kinds : List Kind) : idField ∉ declaredNames kinds := by
  intro h
  obtain ⟨k, -, a, ha, hname⟩ := mem_declaredNames_iff.mp h
  exact Kind.ne_idField_of_mem_attributes ha hname

theorem kindField_notMem_declaredNames (kinds : List Kind) : kindField ∉ declaredNames kinds := by
  intro h
  obtain ⟨k, -, a, ha, hname⟩ := mem_declaredNames_iff.mp h
  exact Kind.ne_kindField_of_mem_attributes ha hname

/-- The headers of a projection of all. No attribute has the name of the id, so that none is left
out beside it. -/
theorem allHeaders_eq (kinds : List Kind) :
    allHeaders kinds = idField :: declaredNames kinds ++ [kindField] := by
  have hnew : (kinds.flatMap fun k => k.attributes.map (·.name)).filter
      (fun h => !([idField].contains h)) = kinds.flatMap fun k => k.attributes.map (·.name) := by
    rw [List.filter_eq_self]
    intro h hmem
    have hne : h ≠ idField := by
      rintro rfl
      exact idField_notMem_declaredNames kinds (List.mem_eraseDups.mpr hmem)
    simpa using hne
  unfold allHeaders addNames
  rw [← List.foldl_flatMap, Distinct.foldl_append_new, hnew]
  rfl

theorem nodup_allHeaders (kinds : List Kind) : (allHeaders kinds).Nodup := by
  have hid := idField_notMem_declaredNames kinds
  have hkind := kindField_notMem_declaredNames kinds
  have hne : idField ≠ kindField := by decide
  rw [allHeaders_eq, List.cons_append, List.nodup_cons, List.mem_append, List.mem_singleton]
  refine ⟨fun h => h.elim hid hne, ?_⟩
  refine List.Nodup.append (Distinct.nodup_eraseDups _) (List.nodup_singleton _) ?_
  rw [List.disjoint_singleton]
  exact hkind

/-- The headers cover each record of the kinds. -/
theorem mem_allHeaders_of_mem_keys (he : e.WellFormed) (hk : e.kind ∈ kinds) {key : String}
    (h : key ∈ e.toRecord.map Prod.fst) : key ∈ allHeaders kinds := by
  rw [allHeaders_eq, List.cons_append, List.mem_cons, List.mem_append, List.mem_singleton,
    mem_declaredNames_iff]
  rcases he.mem_keys_toRecord h with hid | hkind | hdeclared
  · exact .inl hid
  · exact .inr (.inr hkind)
  · exact .inr (.inl ⟨e.kind, hk, hdeclared⟩)

/-- A row under these headers is the record. -/
theorem rowMembers_cells (he : e.WellFormed) (hk : e.kind ∈ kinds) :
    Table.rowMembers (allHeaders kinds) (cells (allHeaders kinds) e) = e.toRecord :=
  Table.rowMembers_eq_of_sorted he.sorted_toRecord fun _ h => mem_allHeaders_of_mem_keys he hk h

end Headers

section Lossless

/-- What a projection of all makes of the entities of a scan, as far as they satisfy the condition:
objects that are their records, and rows that decode to them. -/
structure Lossless (s : Store) (t : Tree) (q : EntityStore.Query) (es : List Entity)
    (table : Table) : Prop where
  headers : ∃ names, table.headers = idField :: names ++ [kindField] ∧
    ∀ name, name ∈ names ↔ ∃ k, s.InScope t q.source k ∧ ∃ a ∈ k.attributes, a.name = name
  nodup : table.headers.Nodup
  json : table.toJson = .arr
    ((es.filter fun e => ∀ p ∈ q.condition, p.holds e = true).map fun e => .obj e.toRecord)
  decode : List.Forall₂ (fun row e => Entity.ofRecord (Table.rowMembers table.headers row) = .ok e)
    table.rows (es.filter fun e => ∀ p ∈ q.condition, p.holds e = true)

theorem filter_meets (condition : Option Predicate) (es : List Entity) :
    es.filter (meets condition) = es.filter fun e => ∀ p ∈ condition, p.holds e = true :=
  List.filter_congr fun _ _ => Bool.eq_iff_iff.mpr (by rw [meets_iff, decide_eq_true_iff])

theorem cells_of_scan {es : List Entity} (h : s.scan t kinds = .ok es) {e : Entity} (he : e ∈ es) :
    Table.rowMembers (allHeaders kinds) (cells (allHeaders kinds) e) = e.toRecord ∧
      Entity.ofRecord e.toRecord = .ok e := by
  obtain ⟨k, hk, name, hheld⟩ := exists_holds_of_mem_scan h he
  have hwell : e.WellFormed := hheld.wellFormed
  have hkind : e.kind ∈ kinds := by rwa [hheld.kind_eq]
  exact ⟨rowMembers_cells hwell hkind, hwell.ofRecord_toRecord_iff.mpr hheld.onClock⟩

theorem lossless_of_scan {source : Source} {condition : Option Predicate} {es : List Entity}
    (h : s.scan t (s.scanOrder t source) = .ok es) :
    s.Lossless t ⟨.all, source, condition⟩ es ⟨allHeaders (s.scanOrder t source),
      (es.filter (meets condition)).map (cells (allHeaders (s.scanOrder t source)))⟩ := by
  rw [filter_meets]
  refine ⟨⟨declaredNames (s.scanOrder t source), allHeaders_eq _, ?_⟩, nodup_allHeaders _, ?_, ?_⟩
  · intro name
    rw [mem_declaredNames_iff]
    simp only [mem_scanOrder_iff]
  · unfold Table.toJson
    rw [List.map_map]
    refine congrArg Json.arr (List.map_congr_left fun e he => ?_)
    have hcells := cells_of_scan h (List.mem_of_mem_filter he)
    exact congrArg Json.obj hcells.1
  · rw [List.forall₂_map_left_iff, List.forall₂_same]
    intro e he
    obtain ⟨hrow, hdecode⟩ := cells_of_scan h (List.mem_of_mem_filter he)
    rwa [hrow]

/-- Whatever a query with a projection of all scans, if it can be read, comes back whole: the
objects of the table are the records of the entities that satisfy the condition, in the order of the
scan. -/
theorem selectAll_lossless (s : Store) (t : Tree) (source : Source) (condition : Option Predicate)
    (hknown : source.Known) (hread : ∀ k ∈ s.scanOrder t source, ∃ es, s.list t k = .ok es) :
    ∃ table lists, s.execute t ⟨.all, source, condition⟩ = .ok table ∧
      List.Forall₂ (fun k es => s.list t k = .ok es) (s.scanOrder t source) lists ∧
      s.Lossless t ⟨.all, source, condition⟩ lists.flatten table := by
  obtain ⟨lists, hlists⟩ := Except.exists_mapM_eq_ok_iff.mpr hread
  have hpairs := Except.mapM_eq_ok_iff.mp hlists
  have hscan : s.scan t (s.scanOrder t source) = .ok lists.flatten :=
    scan_eq_ok_iff.mpr ⟨lists, hpairs, rfl⟩
  exact ⟨_, lists, execute_eq_ok_iff.mpr ⟨hknown, _, hscan, rfl⟩, hpairs, lossless_of_scan hscan⟩

theorem selectAll_lossless_littered : ∃ table,
    execute ⟨[], ".", {}⟩ littered ⟨.all, .names ["Persona", "Data", "Persona"], none⟩ =
        .ok table ∧
      Lossless ⟨[], ".", {}⟩ littered ⟨.all, .names ["Persona", "Data", "Persona"], none⟩
        [ann] table := by
  have hpersona : list ⟨[], ".", {}⟩ littered .persona = .ok [ann] := rfl
  have hdata : list ⟨[], ".", {}⟩ littered .data = .ok [] := rfl
  have horder : scanOrder ⟨[], ".", {}⟩ littered (.names ["Persona", "Data", "Persona"]) =
      [.persona, .data] := by decide +kernel
  have hknown : Source.Known (.names ["Persona", "Data", "Persona"]) := by
    intro name hname
    simp only [List.mem_cons, List.not_mem_nil, or_false] at hname
    obtain rfl | rfl | rfl := hname
    · exact ⟨.persona, rfl⟩
    · exact ⟨.data, rfl⟩
    · exact ⟨.persona, rfl⟩
  have hread : ∀ k ∈ scanOrder ⟨[], ".", {}⟩ littered (.names ["Persona", "Data", "Persona"]),
      ∃ es, list ⟨[], ".", {}⟩ littered k = .ok es := by
    rw [horder]
    intro k hk
    simp only [List.mem_cons, List.not_mem_nil, or_false] at hk
    obtain rfl | rfl := hk
    · exact ⟨_, hpersona⟩
    · exact ⟨_, hdata⟩
  obtain ⟨table, lists, htable, hlists, hlossless⟩ :=
    selectAll_lossless ⟨[], ".", {}⟩ littered _ none hknown hread
  have hlistsEq : lists = [[ann], []] := by
    rw [horder] at hlists
    cases hlists with
    | cons hfirst hrest =>
      cases hrest with
      | cons hsecond hnil =>
        cases hnil
        rw [Except.ok.inj (hfirst.symm.trans hpersona), Except.ok.inj (hsecond.symm.trans hdata)]
  rw [hlistsEq] at hlossless
  exact ⟨table, htable, hlossless⟩

end Lossless

end Store

end EntityStore
