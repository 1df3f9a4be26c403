import EntityStore.Proofs.Assoc
import EntityStore.Query.Result

/-! Rows of tables as objects. -/
namespace EntityStore.Table

variable {headers : List String}

theorem rowMembers_map (headers : List String) (f : String → Option Json) :
    rowMembers headers (headers.map f) =
      Assoc.ofList (headers.filterMap fun h => (f h).map (h, ·)) := by
  unfold rowMembers
  rw [← List.map_prod_left_eq_zip, List.filterMap_map]
  rfl

/-- Where each cell is what a function gives for its header, the row's object has these members. A
header that stands more than once does no harm. -/
theorem find?_rowMembers (headers : List String) (f : String → Option Json) (key : String) :
    Assoc.find? key (rowMembers headers (headers.map f)) =
      if key ∈ headers then f key else none := by
  have hpairs : ∀ p ∈ headers.filterMap fun h => (f h).map (h, ·),
      p.1 ∈ headers ∧ f p.1 = some p.2 := by
    intro p hp
    obtain ⟨h, hmem, hcell⟩ := List.mem_filterMap.mp hp
    obtain ⟨v, hv, rfl⟩ := Option.map_eq_some_iff.mp hcell
    exact ⟨hmem, hv⟩
  rw [rowMembers_map, Assoc.ofList, Assoc.find?_foldl_insert fun p hp => (hpairs p hp).2]
  by_cases hkey : key ∈ headers
  · rw [if_pos hkey]
    split_ifs with hfound
    · rfl
    · cases hcell : f key with
      | none => rfl
      | some v =>
        have hmem : (key, v) ∈ headers.filterMap fun h => (f h).map (h, ·) :=
          List.mem_filterMap.mpr ⟨key, hkey, by rw [hcell, Option.map_some]⟩
        exact absurd (List.mem_map_of_mem (f := Prod.fst) hmem) hfound
  · rw [if_neg hkey, if_neg]
    · rfl
    · intro hfound
      obtain ⟨p, hp, rfl⟩ := List.mem_map.mp hfound
      exact hkey (hpairs p hp).1

/-- A row that gives each field of a record its column is the record. -/
theorem rowMembers_eq_of_sorted {r : List (String × Json)} (hr : Assoc.Sorted r)
    (hheaders : ∀ key ∈ r.map Prod.fst, key ∈ headers) :
    rowMembers headers (headers.map fun h => Assoc.find? h r) = r := by
  refine Assoc.Sorted.ext (Assoc.sorted_ofList _) hr fun key => ?_
  rw [find?_rowMembers]
  split_ifs with hkey
  · rfl
  · refine (Assoc.find?_eq_none_iff.mpr ?_).symm
    exact fun hmem => hkey (hheaders key hmem)

end EntityStore.Table
