import EntityStore.Files.Tree
import EntityStore.Proofs.Assoc
import EntityStore.Proofs.Except
import Mathlib.Tactic.SplitIfs

/-! What a change of a file tree leaves at each place. -/
namespace EntityStore.Tree

variable {t t' : Tree} {p q : Path}

@[simp] theorem node?_nil (t : Tree) : t.node? [] = some .directory := if_pos rfl

theorem node?_put (t : Tree) (hp : p ≠ []) (n : Node) (q : Path) :
    (t.put p n).node? q = if q = p then some n else t.node? q := by
  unfold node? put
  split_ifs with hq hqp hqp
  · exact absurd (hqp ▸ hq) hp
  · rfl
  · rw [hqp, Assoc.find?_insert_self]
  · rw [Assoc.find?_insert_of_ne hqp]

theorem node?_erase (t : Tree) (hp : p ≠ []) (q : Path) :
    (t.erase p).node? q = if q = p then none else t.node? q := by
  unfold node? erase
  split_ifs with hq hqp hqp
  · exact absurd (hqp ▸ hq) hp
  · rfl
  · rw [hqp, Assoc.find?_erase_self]
  · rw [Assoc.find?_erase_of_ne hqp]

/-- Elsewhere nothing is taken away. -/
theorem node?_erase_of_ne (h : q ≠ p) (t : Tree) : (t.erase p).node? q = t.node? q := by
  unfold node? erase
  rw [Assoc.find?_erase_of_ne h]

theorem isDirectory_iff : t.isDirectory p = true ↔ t.node? p = some .directory := by
  simp [isDirectory]

theorem has_eq_false_iff : t.has p = false ↔ t.node? p = none := by
  simp [has]

theorem ne_nil_of_node? {n : Option Node} (h : t.node? p = n) (hn : n ≠ some .directory) :
    p ≠ [] := by
  rintro rfl
  exact hn (h.symm.trans (node?_nil t))

theorem checkDirectory_eq_ok_iff {u : Unit} :
    t.checkDirectory p = .ok u ↔ t.node? p = some .directory := by
  unfold checkDirectory
  split
  next h => simp [h]
  next h => simp [h]
  next h => simp [h]

theorem makeDirectory_eq_ok_iff : t.makeDirectory p = .ok t' ↔
    t.node? p = none ∧ t.node? p.dropLast = some .directory ∧ t.put p .directory = t' := by
  unfold makeDirectory
  rw [← has_eq_false_iff]
  cases hp : t.has p <;>
    simp [Except.bind_eq_ok_iff, checkDirectory_eq_ok_iff]

theorem create_eq_ok_iff : t.create p = .ok t' ↔
    t.node? p = none ∧ t.node? p.dropLast = some .directory ∧
      t.put p (.file (.text "")) = t' := by
  unfold create
  rw [← has_eq_false_iff]
  cases hp : t.has p <;>
    simp [Except.bind_eq_ok_iff, checkDirectory_eq_ok_iff]

/-- A directory is only made where there is nothing. -/
theorem node?_makeDirectory (h : t.makeDirectory p = .ok t') :
    t.node? p = none ∧
      ∀ q, t'.node? q = if q = p then some .directory else t.node? q := by
  obtain ⟨hnone, -, rfl⟩ := makeDirectory_eq_ok_iff.mp h
  exact ⟨hnone, node?_put t (ne_nil_of_node? hnone nofun) _⟩

/-- A file is only created where there is nothing. -/
theorem node?_create (h : t.create p = .ok t') :
    t.node? p = none ∧
      ∀ q, t'.node? q = if q = p then some (.file (.text "")) else t.node? q := by
  obtain ⟨hnone, -, rfl⟩ := create_eq_ok_iff.mp h
  exact ⟨hnone, node?_put t (ne_nil_of_node? hnone nofun) _⟩

theorem isFile_iff : t.isFile p = true ↔ ∃ c, t.node? p = some (.file c) := by
  unfold isFile
  split
  next c h => exact iff_of_true rfl ⟨c, h⟩
  next h => exact iff_of_false Bool.false_ne_true fun ⟨c, hc⟩ => h c hc

theorem read_eq_ok_iff {c : Content} : t.read p = .ok c ↔ t.node? p = some (.file c) := by
  unfold read
  split
  next d hd => simp [hd]
  next hd => simp [hd]
  next hd => simp [hd, Except.bind_eq_ok_iff]

theorem readText_eq_ok_iff {text : String} :
    t.readText p = .ok text ↔ t.node? p = some (.file (.text text)) := by
  unfold readText
  rw [Except.bind_eq_ok_iff]
  simp only [read_eq_ok_iff]
  constructor
  · rintro ⟨c, hc, h⟩
    cases c with
    | text s =>
      cases h
      exact hc
    | binary bytes => cases h
  · intro h
    exact ⟨_, h, rfl⟩

theorem append_eq_ok_iff {text : String} : t.append p text = .ok t' ↔
    ∃ old, t.node? p = some (.file (.text old)) ∧ t.put p (.file (.text (old ++ text))) = t' := by
  unfold append
  simp only [Except.bind_eq_ok_iff, readText_eq_ok_iff, Except.pure_eq_ok, Except.ok.injEq]

theorem rename_eq_ok_iff : t.rename p q = .ok t' ↔
    ∃ c, t.node? p = some (.file c) ∧ t.node? q.dropLast = some .directory ∧
      t.node? q ≠ some .directory ∧ (t.erase p).put q (.file c) = t' := by
  unfold rename
  rw [Ne, ← isDirectory_iff (p := q)]
  cases hq : t.isDirectory q <;>
    simp [Except.bind_eq_ok_iff, read_eq_ok_iff, checkDirectory_eq_ok_iff]

theorem write_eq_ok_iff {c : Content} : t.write p c = .ok t' ↔
    t.node? p.dropLast = some .directory ∧ t.node? p ≠ some .directory ∧
      t.put p (.file c) = t' := by
  unfold write
  rw [Ne, ← isDirectory_iff (p := p)]
  cases hp : t.isDirectory p <;>
    simp [Except.bind_eq_ok_iff, checkDirectory_eq_ok_iff]

theorem node?_append {old text : String} (hp : t.node? p = some (.file (.text old)))
    (h : t.append p text = .ok t') (q : Path) :
    t'.node? q = if q = p then some (.file (.text (old ++ text))) else t.node? q := by
  obtain ⟨old', hold, rfl⟩ := append_eq_ok_iff.mp h
  rw [hp] at hold
  cases hold
  exact node?_put t (ne_nil_of_node? hp nofun) _ q

/-- A file moved to a place leaves nothing behind. The place is no directory. -/
theorem node?_rename {c : Content} (hp : t.node? p = some (.file c))
    (h : t.rename p q = .ok t') :
    t.node? q ≠ some .directory ∧ ∀ r, t'.node? r =
      if r = q then some (.file c) else if r = p then none else t.node? r := by
  obtain ⟨c', hc, -, hne, rfl⟩ := rename_eq_ok_iff.mp h
  rw [hp] at hc
  cases hc
  refine ⟨hne, fun r => ?_⟩
  rw [node?_put _ (ne_nil_of_node? rfl hne), node?_erase _ (ne_nil_of_node? hp nofun)]

/-- A file is written anywhere but over a directory. -/
theorem node?_write {c : Content} (h : t.write p c = .ok t') :
    t.node? p ≠ some .directory ∧
      ∀ q, t'.node? q = if q = p then some (.file c) else t.node? q := by
  obtain ⟨-, hne, rfl⟩ := write_eq_ok_iff.mp h
  exact ⟨hne, node?_put t (ne_nil_of_node? rfl hne) _⟩

/-- What is put where there is nothing, and taken away, leaves no trace. -/
theorem erase_put_of_node? (h : t.node? p = none) (m n : Node) :
    ((t.put p m).put p n).erase p = t := by
  have hp : p ≠ [] := ne_nil_of_node? h nofun
  have hnone : Assoc.find? p t.nodes = none := by
    unfold node? at h
    rwa [if_neg hp] at h
  unfold erase put
  rw [Assoc.erase_insert, Assoc.erase_insert,
    Assoc.erase_of_notMem (Assoc.find?_eq_none_iff.mp hnone)]

end EntityStore.Tree
