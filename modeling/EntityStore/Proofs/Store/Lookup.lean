import EntityStore.Proofs.Entity.RoundTrip
import EntityStore.Proofs.Files.Tree
import EntityStore.Store.Lookup

/-! Looking a record up reads one file. -/
namespace EntityStore.Store

variable {s : Store} {t t' : Tree}

theorem get_of_kind (s : Store) (t : Tree) (k : Kind) (id : String) :
    s.get t id (some k) = if s.contains t k id then (s.readRecord t k (fileName id)).map some
      else .ok none := by
  unfold get locate? scope
  cases h : s.contains t k id <;> simp [h]

theorem contains_congr {k : Kind} {id : String}
    (h : t'.node? (s.recordPath k id) = t.node? (s.recordPath k id)) :
    s.contains t' k id = s.contains t k id := by
  unfold contains Tree.isFile
  rw [h]

theorem readRecord_congr {k : Kind} {id : String}
    (h : t'.node? (s.recordPath k id) = t.node? (s.recordPath k id))
    (hc : s.contains t k id = true) :
    s.readRecord t' k (fileName id) = s.readRecord t k (fileName id) := by
  obtain ⟨c, hnode⟩ := Tree.isFile_iff.mp (Bool.and_eq_true_iff.mp hc).2
  have hread : t'.readText (s.recordPath k id) = t.readText (s.recordPath k id) := by
    rw [Tree.readText, Tree.readText, Tree.read_eq_ok_iff.mpr hnode,
      Tree.read_eq_ok_iff.mpr (h.trans hnode)]
  unfold recordPath at hread
  unfold readRecord
  rw [hread]

/-- Trees that agree at a record's place agree on the record, damaged or not. -/
theorem get_congr {k : Kind} {id : String}
    (h : t'.node? (s.recordPath k id) = t.node? (s.recordPath k id)) :
    s.get t' id (some k) = s.get t id (some k) := by
  rw [get_of_kind, get_of_kind, contains_congr h]
  split_ifs with hc
  · rw [readRecord_congr h hc]
  · rfl

/-- A text of an entity's record in its place is this entity, as clocks show it. -/
theorem get_of_node? {e : Entity} (he : e.WellFormed) {text : String}
    (hnode : t.node? (s.recordPath e.kind e.id) = some (.file (.text text)))
    (hparse : Json.parseMembers? text = some e.toRecord) :
    s.get t e.id (some e.kind) = .ok (some e.carried) := by
  have hcontains : s.contains t e.kind e.id = true :=
    Bool.and_eq_true_iff.mpr ⟨he.id_valid, Tree.isFile_iff.mpr ⟨_, hnode⟩⟩
  have hread := Tree.readText_eq_ok_iff.mpr hnode
  unfold recordPath at hread
  rw [get_of_kind, if_pos hcontains, readRecord, hread]
  simp [hparse, he.ofRecord_toRecord, recordPath, Entity.carried]

end EntityStore.Store
