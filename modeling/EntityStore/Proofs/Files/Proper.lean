import EntityStore.Proofs.Assoc
import EntityStore.Proofs.Files.Tree

/-! Proper file trees: what their directories list, and that changes of files keep them proper. -/
namespace EntityStore.Tree

variable {t t' : Tree} {dir p q : Path} {n : Node}

/-- Places are listed in order, and lie in directories. The top is not listed. -/
structure Proper (t : Tree) : Prop where
  sorted : Assoc.Sorted t.nodes
  inside : ∀ p ∈ t.nodes.map Prod.fst, p ≠ [] ∧ t.node? p.dropLast = some .directory

instance (t : Tree) : Decidable t.Proper :=
  decidable_of_iff (Assoc.Sorted t.nodes ∧
      ∀ p ∈ t.nodes.map Prod.fst, p ≠ [] ∧ t.node? p.dropLast = some .directory)
    ⟨fun h => ⟨h.1, h.2⟩, fun h => ⟨h.sorted, h.inside⟩⟩

section Children

theorem below?_eq_some_iff {rest : Path} : below? dir p = some rest ↔ p = dir ++ rest := by
  induction dir generalizing p with
  | nil => simp [below?]
  | cons d ds ih =>
    cases p with
    | nil => simp [below?]
    | cons n ns =>
      rw [below?, List.cons_append, List.cons.injEq]
      split_ifs with hd
      · rw [ih]
        exact ⟨fun h => ⟨hd.symm, h⟩, And.right⟩
      · exact iff_of_false nofun fun h => hd h.1.symm

theorem mem_children_iff {name : String} :
    (name, n) ∈ t.children dir ↔ (dir ++ [name], n) ∈ t.nodes := by
  unfold children
  rw [List.mem_filterMap]
  constructor
  · rintro ⟨⟨p, m⟩, hmem, h⟩
    dsimp only at h
    split at h
    next name' hbelow =>
      cases h
      rwa [← below?_eq_some_iff.mp hbelow]
    next => cases h
  · intro hmem
    have hbelow : below? dir (dir ++ [name]) = some [name] := below?_eq_some_iff.mpr rfl
    exact ⟨_, hmem, by simp only [hbelow]⟩

theorem nodup_children (h : t.Proper) : ((t.children dir).map Prod.fst).Nodup := by
  have hplaces : t.nodes.Pairwise fun a b => a.1 ≠ b.1 := List.pairwise_map.mp h.sorted.nodup_keys
  unfold children
  rw [List.Nodup, List.pairwise_map, List.pairwise_filterMap]
  refine hplaces.imp fun {a b} hab x hx y hy hxy => hab ?_
  dsimp only at hx hy
  split at hx
  next name hname =>
    split at hy
    next name' hname' =>
      cases hx
      cases hy
      have hsame : name = name' := hxy
      rw [below?_eq_some_iff.mp hname, below?_eq_some_iff.mp hname', hsame]
    next => cases hy
  next => cases hx

/-- A directory lists the names at which there is something, with what there is. -/
theorem Proper.mem_children_iff_node? (h : t.Proper) {name : String} :
    (name, n) ∈ t.children dir ↔ t.node? (dir ++ [name]) = some n := by
  have hne : dir ++ [name] ≠ [] := List.concat_ne_nil name dir
  rw [mem_children_iff, ← Assoc.find?_eq_some_iff h.sorted.nodup_keys, node?, if_neg hne]

end Children

section Changes

theorem mem_keys_of_node? (hp : p ≠ []) (h : t.node? p = some n) : p ∈ t.nodes.map Prod.fst := by
  unfold node? at h
  rw [if_neg hp] at h
  exact List.mem_map_of_mem (f := Prod.fst) (Assoc.mem_of_find? h)

/-- What is there lies in a directory. -/
theorem Proper.node?_dropLast (h : t.Proper) (hp : t.node? p = some n) :
    t.node? p.dropLast = some .directory := by
  by_cases hnil : p = []
  · rw [hnil]
    exact node?_nil t
  · exact (h.inside p (mem_keys_of_node? hnil hp)).2

/-- A tree stays proper when something is put in a directory, and not in place of one. -/
theorem Proper.put (h : t.Proper) (hp : p ≠ []) (hparent : t.node? p.dropLast = some .directory)
    (hn : t.node? p = some .directory → n = .directory) : (t.put p n).Proper := by
  have hkept : ∀ q, t.node? q = some .directory → (t.put p n).node? q = some .directory := by
    intro q hq
    rw [node?_put t hp]
    split_ifs with heq
    · rw [hn (heq ▸ hq)]
    · exact hq
  refine ⟨h.sorted.insert p n, fun q hq => ?_⟩
  obtain ⟨⟨q, m⟩, hmem, rfl⟩ := List.mem_map.mp hq
  rcases Assoc.mem_insert hmem with heq | hmem
  · cases heq
    exact ⟨hp, hkept _ hparent⟩
  · obtain ⟨hne, hdir⟩ := h.inside q (List.mem_map_of_mem (f := Prod.fst) hmem)
    exact ⟨hne, hkept _ hdir⟩

/-- A tree stays proper when something else than a directory is taken away. -/
theorem Proper.erase (h : t.Proper) (hp : t.node? p ≠ some .directory) : (t.erase p).Proper := by
  refine ⟨h.sorted.erase p, fun q hq => ?_⟩
  obtain ⟨⟨q, m⟩, hmem, rfl⟩ := List.mem_map.mp hq
  have hold := (Assoc.mem_erase.mp hmem).1
  obtain ⟨hne, hdir⟩ := h.inside q (List.mem_map_of_mem (f := Prod.fst) hold)
  have hother : q.dropLast ≠ p := by
    intro heq
    exact hp (heq ▸ hdir)
  rw [node?_erase t (ne_nil_of_node? rfl hp), if_neg hother]
  exact ⟨hne, hdir⟩

theorem Proper.makeDirectory (h : t.Proper) (hmake : t.makeDirectory p = .ok t') : t'.Proper := by
  obtain ⟨hnone, hparent, rfl⟩ := makeDirectory_eq_ok_iff.mp hmake
  exact h.put (ne_nil_of_node? hnone nofun) hparent fun _ => rfl

theorem Proper.create (h : t.Proper) (hcreate : t.create p = .ok t') : t'.Proper := by
  obtain ⟨hnone, hparent, rfl⟩ := create_eq_ok_iff.mp hcreate
  refine h.put (ne_nil_of_node? hnone nofun) hparent fun hdir => ?_
  rw [hnone] at hdir
  cases hdir

theorem Proper.append {text : String} (h : t.Proper) (happend : t.append p text = .ok t') :
    t'.Proper := by
  obtain ⟨old, hold, rfl⟩ := append_eq_ok_iff.mp happend
  refine h.put (ne_nil_of_node? hold nofun) (h.node?_dropLast hold) fun hdir => ?_
  rw [hold] at hdir
  cases hdir

theorem Proper.rename (h : t.Proper) (hrename : t.rename p q = .ok t') : t'.Proper := by
  obtain ⟨c, hc, hparent, hq, rfl⟩ := rename_eq_ok_iff.mp hrename
  have hp : t.node? p ≠ some .directory := by
    rw [hc]
    exact nofun
  have hother : q.dropLast ≠ p := by
    intro heq
    exact hp (heq ▸ hparent)
  have hpne : p ≠ [] := ne_nil_of_node? hc nofun
  refine (h.erase hp).put (ne_nil_of_node? rfl hq) ?_ fun hdir => ?_
  · rw [node?_erase t hpne, if_neg hother, hparent]
  · rw [node?_erase t hpne] at hdir
    split_ifs at hdir
    exact absurd hdir hq

theorem Proper.write {c : Content} (h : t.Proper) (hwrite : t.write p c = .ok t') :
    t'.Proper := by
  obtain ⟨hparent, hp, rfl⟩ := write_eq_ok_iff.mp hwrite
  exact h.put (ne_nil_of_node? rfl hp) hparent fun hdir => absurd hdir hp

end Changes

end EntityStore.Tree
