import EntityStore.Proofs.Entity.Normal
import EntityStore.Proofs.Query.Result
import EntityStore.Proofs.Store.Query

/-! The two ways to read a table: its columns and its objects have the same cells. -/
namespace EntityStore

namespace Table

variable {headers : List String} {fields : List (String → Option Json)}

/-- A table with the objects that its rows are read as. There is a column for each header and no
other; it has a cell for each row, and the cell is what the object has under that header. The
objects have nothing else, and nothing is null. -/
structure Aligned (table : Table) (objects : List (List (String × Json))) : Prop where
  toJson_eq : table.toJson = .arr (objects.map .obj)
  length_eq : objects.length = table.size
  column?_eq_none_iff : ∀ header, table.column? header = none ↔ header ∉ table.headers
  column?_eq_some : ∀ header ∈ table.headers,
    table.column? header = some (objects.map fun members => Assoc.find? header members)
  nodup_keys : ∀ members ∈ objects, (members.map Prod.fst).Nodup
  mem_headers : ∀ members ∈ objects, ∀ p ∈ members, p.1 ∈ table.headers
  cell_ne_null : ∀ row ∈ table.rows, ∀ cell ∈ row, cell ≠ some .null
  member_ne_null : ∀ members ∈ objects, ∀ p ∈ members, p.2 ≠ .null

/-- Where each cell is what a function gives for its header, the first column of a name is as good
as any other. -/
theorem column?_map (headers : List String) (fields : List (String → Option Json))
    (header : String) : column? ⟨headers, fields.map headers.map⟩ header =
      if header ∈ headers then some (fields.map (· header)) else none := by
  unfold column?
  dsimp only
  cases hplace : headers.findIdx? (· == header) with
  | none =>
    have habsent : header ∉ headers := by
      intro hmem
      have hne := List.findIdx?_eq_none_iff.mp hplace header hmem
      simp at hne
    rw [if_neg habsent, Option.map_none]
  | some i =>
    obtain ⟨hi, heq, -⟩ := List.findIdx?_eq_some_iff_getElem.mp hplace
    have hheader : headers[i] = header := eq_of_beq heq
    have hmem : header ∈ headers := hheader ▸ List.getElem_mem hi
    rw [if_pos hmem, Option.map_some, List.map_map]
    refine congrArg some (List.map_congr_left fun f _ => ?_)
    show ((headers.map f)[i]?).join = f header
    rw [List.getElem?_map, List.getElem?_eq_getElem hi, hheader]
    rfl

/-- A member of a row's object is the cell of its header. -/
theorem of_mem_rowMembers {f : String → Option Json} {p : String × Json}
    (h : p ∈ rowMembers headers (headers.map f)) : p.1 ∈ headers ∧ f p.1 = some p.2 := by
  have hfind := (Assoc.find?_eq_some_iff (Assoc.sorted_ofList _).nodup_keys).mpr h
  change Assoc.find? p.1 (rowMembers headers (headers.map f)) = some p.2 at hfind
  rw [find?_rowMembers] at hfind
  split_ifs at hfind with hmem
  exact ⟨hmem, hfind⟩

theorem aligned_of_fields (hnull : ∀ f ∈ fields, ∀ header, f header ≠ some .null) :
    Aligned ⟨headers, fields.map headers.map⟩
      (fields.map fun f => rowMembers headers (headers.map f)) := by
  refine ⟨?_, ?_, ?_, ?_, ?_, ?_, ?_, ?_⟩
  · unfold toJson
    rw [List.map_map, List.map_map]
    rfl
  · simp only [size, List.length_map]
  · intro header
    rw [column?_map]
    split_ifs with hmem <;> simp [hmem]
  · intro header hmem
    rw [column?_map, if_pos hmem, List.map_map]
    refine congrArg some (List.map_congr_left fun f _ => ?_)
    show f header = Assoc.find? header (rowMembers headers (headers.map f))
    rw [find?_rowMembers, if_pos hmem]
  · intro members hmembers
    obtain ⟨f, -, rfl⟩ := List.mem_map.mp hmembers
    exact (Assoc.sorted_ofList _).nodup_keys
  · intro members hmembers p hp
    obtain ⟨f, -, rfl⟩ := List.mem_map.mp hmembers
    exact (of_mem_rowMembers hp).1
  · intro row hrow cell hcell
    obtain ⟨f, hf, rfl⟩ := List.mem_map.mp hrow
    obtain ⟨header, -, rfl⟩ := List.mem_map.mp hcell
    exact hnull f hf header
  · intro members hmembers p hp hp'
    obtain ⟨f, hf, rfl⟩ := List.mem_map.mp hmembers
    have hcell := (of_mem_rowMembers hp).2
    rw [hp'] at hcell
    exact hnull f hf p.1 hcell

end Table

/-- Only a float that is not finite is stored as null, and none is stored for an attribute. -/
theorem Value.Normal.toJson_ne_null {type : AttributeType} {v : Value} (h : v.Normal type) :
    v.toJson ≠ .null := by
  cases h with
  | float x hx =>
    have hfloat : (Value.float x).toJson = Json.float x := if_pos hx
    rw [hfloat]
    exact nofun
  | _ => exact nofun

/-- No field of a record is null. -/
theorem Entity.Sound.find?_toRecord_ne_null {e : Entity} (he : e.Sound) (header : String) :
    Assoc.find? header e.toRecord ≠ some .null := by
  rw [find?_toRecord]
  split_ifs with hid hkind
  · exact nofun
  · exact nofun
  · intro hnull
    obtain ⟨v, hv, hnull⟩ := Option.map_eq_some_iff.mp hnull
    obtain ⟨a, -, hstored⟩ := he.stored (header, v) (Assoc.mem_of_find? hv)
    exact (Value.stored_iff_normal.mp hstored).toJson_ne_null hnull

namespace Store

/-- What a query answers is read the same by columns and by objects, whatever its headers are, and
has no null in it. -/
theorem aligned_of_execute {s : Store} {t : Tree} {q : EntityStore.Query} {table : Table}
    (h : s.execute t q = .ok table) : ∃ objects, table.Aligned objects := by
  obtain ⟨-, es, hscan, rfl⟩ := execute_eq_ok_iff.mp h
  have hrows (hs : List String) (es : List Entity) : es.map (cells hs) =
      (es.map fun e header => Assoc.find? header e.toRecord).map hs.map := by
    rw [List.map_map]
    rfl
  rw [hrows]
  refine ⟨_, Table.aligned_of_fields fun f hf header => ?_⟩
  obtain ⟨e, he, rfl⟩ := List.mem_map.mp hf
  obtain ⟨k, -, name, hheld⟩ := exists_holds_of_mem_scan hscan (List.mem_of_mem_filter he)
  exact hheld.wellFormed.find?_toRecord_ne_null header

/-- A query with a header that stands twice, one that no kind has, and the id and the kind. -/
def repeatingQuery : EntityStore.Query :=
  ⟨.names ["name", "missing", "id", "name", "kind"], .all, none⟩

theorem aligned_repeating : ∃ table objects,
    execute ⟨[], ".", {}⟩ littered repeatingQuery = .ok table ∧ table.Aligned objects ∧
      table.column? "name" = some [some (.str "Ann")] ∧ table.column? "missing" = some [none] := by
  have hexecute : execute ⟨[], ".", {}⟩ littered repeatingQuery = .ok
      ⟨["name", "missing", "id", "name", "kind"],
        [[some (.str "Ann"), none, some (.str ann.id), some (.str "Ann"),
          some (.str "Persona")]]⟩ := rfl
  obtain ⟨objects, haligned⟩ := aligned_of_execute hexecute
  exact ⟨_, objects, hexecute, haligned, rfl, rfl⟩

end Store

end EntityStore
