import EntityStore.Assoc
import Mathlib.Data.List.Forall2
import Mathlib.Data.List.Nodup
import Mathlib.Tactic.SplitIfs

/-! Maps with increasing keys: changes keep the order, and a key stands once. -/
namespace EntityStore.Assoc

variable {κ α : Type} [DecidableEq κ]

section Membership

theorem mem_insert [LT κ] [DecidableLT κ] {p : κ × α} {k : κ} {v : α} {m : Assoc κ α}
    (h : p ∈ insert k v m) : p = (k, v) ∨ p ∈ m := by
  induction m with
  | nil => exact .inl (List.mem_singleton.mp h)
  | cons q rest ih =>
    obtain ⟨j, w⟩ := q
    rw [insert] at h
    split at h
    · rcases List.mem_cons.mp h with h | h
      · exact .inl h
      · exact .inr (List.mem_cons_of_mem _ h)
    · split at h
      · exact (List.mem_cons.mp h)
      · rcases List.mem_cons.mp h with h | h
        · exact .inr (h ▸ List.mem_cons_self)
        · exact (ih h).imp_right (List.mem_cons_of_mem _)

theorem mem_erase {p : κ × α} {k : κ} {m : Assoc κ α} : p ∈ erase k m ↔ p ∈ m ∧ p.1 ≠ k := by
  simp [erase]

theorem erase_insert [LT κ] [DecidableLT κ] (k : κ) (v : α) (m : Assoc κ α) :
    erase k (insert k v m) = erase k m := by
  induction m with
  | nil => simp [insert, erase]
  | cons p rest ih =>
    obtain ⟨j, w⟩ := p
    have hcons (u : α) (n : Assoc κ α) :
        erase k ((j, u) :: n) = if j = k then erase k n else (j, u) :: erase k n := by
      by_cases hj : j = k <;> simp [erase, hj]
    rw [insert]
    split_ifs with hj hk
    · subst hj
      rw [hcons, hcons, if_pos rfl, if_pos rfl]
    · simp [erase]
    · rw [hcons, hcons, ih]

theorem insert_insert [LT κ] [DecidableLT κ] (k : κ) (v w : α) (m : Assoc κ α) :
    insert k v (insert k w m) = insert k v m := by
  induction m with
  | nil => simp [insert]
  | cons p rest ih =>
    obtain ⟨j, x⟩ := p
    by_cases hj : j = k
    · simp [insert, hj]
    · by_cases hk : k < j <;> simp [insert, hj, hk, ih]

theorem erase_of_notMem {k : κ} {m : Assoc κ α} (h : k ∉ m.map Prod.fst) : erase k m = m := by
  apply List.filter_eq_self.mpr
  intro p hp
  have hne : p.1 ≠ k := by
    rintro rfl
    exact h (List.mem_map_of_mem (f := Prod.fst) hp)
  simpa using hne

theorem mem_of_find? {k : κ} {v : α} {m : Assoc κ α} (h : find? k m = some v) : (k, v) ∈ m := by
  induction m with
  | nil => cases h
  | cons p rest ih =>
    obtain ⟨j, w⟩ := p
    rw [find?] at h
    split_ifs at h with hj
    · cases h
      exact hj ▸ List.mem_cons_self
    · exact List.mem_cons_of_mem _ (ih h)

theorem find?_eq_none_iff {k : κ} {m : Assoc κ α} : find? k m = none ↔ k ∉ m.map Prod.fst := by
  induction m with
  | nil => simp [find?]
  | cons p rest ih =>
    obtain ⟨j, w⟩ := p
    rw [find?, List.map_cons, List.mem_cons, not_or, ← ih]
    split_ifs with hj
    · exact iff_of_false not_false fun h => h.1 hj.symm
    · exact ⟨fun h => ⟨fun heq => hj heq.symm, h⟩, And.right⟩

/-- Where keys stand once, each pair is found. -/
theorem find?_eq_some_iff {k : κ} {v : α} {m : Assoc κ α} (hm : (m.map Prod.fst).Nodup) :
    find? k m = some v ↔ (k, v) ∈ m := by
  refine ⟨mem_of_find?, fun h => ?_⟩
  have hkey : k ∈ m.map Prod.fst := List.mem_map_of_mem (f := Prod.fst) h
  cases hfind : find? k m with
  | none => exact absurd hkey (find?_eq_none_iff.mp hfind)
  | some w =>
    have hsame := List.inj_on_of_nodup_map hm (mem_of_find? hfind) h rfl
    exact congrArg some (congrArg Prod.snd hsame)

theorem find?_map {β : Type} (f : α → β) (k : κ) (m : Assoc κ α) :
    find? k (m.map fun p => (p.1, f p.2)) = (find? k m).map f := by
  induction m with
  | nil => rfl
  | cons p rest ih =>
    rw [List.map_cons, find?, find?, ih]
    split_ifs <;> rfl

instance [LT κ] [DecidableLT κ] (m : Assoc κ α) : Decidable (Sorted m) :=
  inferInstanceAs (Decidable (m.Pairwise fun p q => p.1 < q.1))

theorem Sorted.erase [LT κ] {m : Assoc κ α} (h : Sorted m) (k : κ) : Sorted (erase k m) :=
  List.Pairwise.filter _ h

omit [DecidableEq κ] in
theorem Sorted.map [LT κ] {β : Type} {m : Assoc κ α} (h : Sorted m) (f : α → β) :
    Sorted (m.map fun p => (p.1, f p.2)) := List.pairwise_map.mpr h

/-- Of pairs that a function gives, each key has the function's value. -/
theorem find?_foldl_insert [LT κ] [DecidableLT κ] {f : κ → Option α} {pairs : List (κ × α)}
    (h : ∀ p ∈ pairs, f p.1 = some p.2) (m : Assoc κ α) (k : κ) :
    find? k (pairs.foldl (fun m p => insert p.1 p.2 m) m) =
      if k ∈ pairs.map Prod.fst then f k else find? k m := by
  induction pairs generalizing m with
  | nil => rfl
  | cons p rest ih =>
    have hp : f p.1 = some p.2 := h p List.mem_cons_self
    rw [List.foldl_cons, ih fun q hq => h q (List.mem_cons_of_mem _ hq), List.map_cons]
    by_cases hrest : k ∈ rest.map Prod.fst
    · rw [if_pos hrest, if_pos (List.mem_cons_of_mem _ hrest)]
    · rw [if_neg hrest]
      by_cases hk : k = p.1
      · rw [hk, if_pos List.mem_cons_self, find?_insert_self, hp]
      · have hnot : k ∉ p.1 :: rest.map Prod.fst := fun hmem =>
          (List.mem_cons.mp hmem).elim hk hrest
        rw [if_neg hnot, find?_insert_of_ne hk]

section Pairs

variable {β : Type} {R : κ × α → κ × β → Prop} {m : Assoc κ α} {n : Assoc κ β}

/-- Pairs that agree in their keys are found at the same keys. -/
theorem find?_of_forall₂ (hR : ∀ p q, R p q → q.1 = p.1) (h : List.Forall₂ R m n) (key : κ) :
    find? key m = none ∧ find? key n = none ∨
      ∃ x y, find? key m = some x ∧ find? key n = some y ∧ R (key, x) (key, y) := by
  induction h with
  | nil => exact .inl ⟨rfl, rfl⟩
  | @cons p q m n hpq _ ih =>
    obtain ⟨j, x⟩ := p
    obtain ⟨_, y⟩ := q
    obtain rfl := hR _ _ hpq
    rw [find?, find?]
    split_ifs with hj
    · subst hj
      exact .inr ⟨x, y, rfl, rfl, hpq⟩
    · exact ih

theorem forall₂_insert [LT κ] [DecidableLT κ] (hR : ∀ p q, R p q → q.1 = p.1)
    (h : List.Forall₂ R m n) {k : κ} {x : α} {y : β} (hk : R (k, x) (k, y)) :
    List.Forall₂ R (insert k x m) (insert k y n) := by
  induction h with
  | nil => exact .cons hk .nil
  | @cons p q m n hpq hrest ih =>
    obtain ⟨j, x'⟩ := p
    obtain ⟨_, y'⟩ := q
    obtain rfl := hR _ _ hpq
    rw [insert, insert]
    split_ifs
    · exact .cons hk hrest
    · exact .cons hk (.cons hpq hrest)
    · exact .cons hpq ih

omit [DecidableEq κ] in
theorem keys_eq_of_forall₂ (hR : ∀ p q, R p q → q.1 = p.1) (h : List.Forall₂ R m n) :
    n.map Prod.fst = m.map Prod.fst := by
  induction h with
  | nil => rfl
  | cons hpq _ ih => rw [List.map_cons, List.map_cons, hR _ _ hpq, ih]

omit [DecidableEq κ] in
theorem Sorted.of_forall₂ [LT κ] (hm : Sorted m) (hR : ∀ p q, R p q → q.1 = p.1)
    (h : List.Forall₂ R m n) : Sorted n := by
  rw [Sorted, ← List.pairwise_map, keys_eq_of_forall₂ hR h, List.pairwise_map]
  exact hm

end Pairs

end Membership

section Order

variable [LT κ] [LE κ] [DecidableLT κ] [Std.IsLinearOrder κ] [Std.LawfulOrderLT κ]

theorem Sorted.insert {m : Assoc κ α} (h : Sorted m) (k : κ) (v : α) : Sorted (insert k v m) := by
  induction m with
  | nil => exact List.pairwise_singleton _ _
  | cons p rest ih =>
    obtain ⟨j, w⟩ := p
    obtain ⟨hj, hrest⟩ := List.pairwise_cons.mp h
    rw [Assoc.insert]
    split
    next heq => exact List.pairwise_cons.mpr ⟨heq ▸ hj, hrest⟩
    next hne =>
      split
      next hlt =>
        refine List.pairwise_cons.mpr ⟨fun q hq => ?_, h⟩
        rcases List.mem_cons.mp hq with rfl | hq
        · exact hlt
        · exact Std.lt_trans hlt (hj q hq)
      next hnlt =>
        have hjk : j < k := Std.lt_of_le_of_ne (Std.not_lt.mp hnlt) hne
        refine List.pairwise_cons.mpr ⟨fun q hq => ?_, ih hrest⟩
        rcases mem_insert hq with rfl | hq
        · exact hjk
        · exact hj q hq

theorem Sorted.foldl_insert {m : Assoc κ α} (h : Sorted m) (pairs : List (κ × α)) :
    Sorted (pairs.foldl (fun m p => Assoc.insert p.1 p.2 m) m) := by
  induction pairs generalizing m with
  | nil => exact h
  | cons p rest ih => exact ih (h.insert p.1 p.2)

omit [DecidableEq κ] [DecidableLT κ] [Std.IsLinearOrder κ] in
/-- Keys that increase are distinct. -/
theorem Sorted.nodup_keys {m : Assoc κ α} (h : Sorted m) : (m.map Prod.fst).Nodup := by
  rw [List.Nodup, List.pairwise_map]
  refine h.imp fun {p q} hlt heq => ?_
  rw [heq] at hlt
  exact Std.lt_irrefl hlt

theorem sorted_ofList (pairs : List (κ × α)) : Sorted (ofList pairs) :=
  Sorted.foldl_insert .nil pairs

omit [DecidableLT κ] [Std.IsLinearOrder κ] in
theorem find?_eq_none_of_lt {k : κ} {m : Assoc κ α} (h : ∀ p ∈ m, k < p.1) : find? k m = none := by
  rw [find?_eq_none_iff]
  intro hk
  obtain ⟨p, hp, rfl⟩ := List.mem_map.mp hk
  exact Std.lt_irrefl (h p hp)

omit [DecidableLT κ] in
/-- The first key of a map is not before that of a map with the same values. -/
theorem not_lt_of_find?_eq {p q : κ × α} {m n : Assoc κ α} (hn : Sorted (q :: n))
    (h : ∀ k, find? k (p :: m) = find? k (q :: n)) : ¬ p.1 < q.1 := by
  intro hlt
  have hnone : find? p.1 (q :: n) = none := by
    refine find?_eq_none_of_lt fun r hr => ?_
    rcases List.mem_cons.mp hr with rfl | hr
    · exact hlt
    · exact Std.lt_trans hlt ((List.pairwise_cons.mp hn).1 r hr)
  have hsome : find? p.1 (p :: m) = some p.2 := if_pos rfl
  rw [h, hnone] at hsome
  cases hsome

omit [DecidableLT κ] in
/-- Maps with the same values are the same. -/
theorem Sorted.ext {m n : Assoc κ α} (hm : Sorted m) (hn : Sorted n)
    (h : ∀ k, find? k m = find? k n) : m = n := by
  induction m generalizing n with
  | nil =>
    cases n with
    | nil => rfl
    | cons q n =>
      have hq := h q.1
      rw [find?, find?, if_pos rfl] at hq
      cases hq
  | cons p m ih =>
    obtain ⟨hp, hm'⟩ := List.pairwise_cons.mp hm
    cases n with
    | nil =>
      have hp := h p.1
      rw [find?, find?, if_pos rfl] at hp
      cases hp
    | cons q n =>
      obtain ⟨hq, hn'⟩ := List.pairwise_cons.mp hn
      -- Neither first key is before the other.
      have hpq : ¬ p.1 < q.1 := not_lt_of_find?_eq hn h
      have hqp : ¬ q.1 < p.1 := not_lt_of_find?_eq hm fun k => (h k).symm
      have hkey : p.1 = q.1 := Std.le_antisymm (Std.not_lt.mp hqp) (Std.not_lt.mp hpq)
      have hvalue : some p.2 = some q.2 := by
        have hfirst := h p.1
        rwa [find?, find?, if_pos rfl, if_pos hkey.symm] at hfirst
      have hrest : m = n := by
        refine ih hm' hn' fun k => ?_
        by_cases hk : p.1 = k
        · subst hk
          rw [find?_eq_none_of_lt hp, hkey, find?_eq_none_of_lt hq]
        · have hfind := h k
          rwa [find?, find?, if_neg hk, if_neg (hkey ▸ hk)] at hfind
      rw [Prod.ext hkey (Option.some.inj hvalue), hrest]

theorem Sorted.insert_comm {m : Assoc κ α} (hm : Sorted m) {j k : κ} (hne : j ≠ k) (v w : α) :
    Assoc.insert k w (Assoc.insert j v m) = Assoc.insert j v (Assoc.insert k w m) := by
  refine ((hm.insert j v).insert k w).ext ((hm.insert k w).insert j v) fun key => ?_
  by_cases hk : key = k
  · rw [hk, find?_insert_self, find?_insert_of_ne hne.symm, find?_insert_self]
  · rw [find?_insert_of_ne hk]
    by_cases hj : key = j
    · rw [hj, find?_insert_self, find?_insert_self]
    · rw [find?_insert_of_ne hj, find?_insert_of_ne hj, find?_insert_of_ne hk]

theorem Sorted.erase_insert_of_ne {m : Assoc κ α} (hm : Sorted m) {j k : κ} (hne : j ≠ k) (v : α) :
    Assoc.erase k (Assoc.insert j v m) = Assoc.insert j v (Assoc.erase k m) := by
  refine ((hm.insert j v).erase k).ext ((hm.erase k).insert j v) fun key => ?_
  by_cases hk : key = k
  · rw [hk, find?_erase_self, find?_insert_of_ne hne.symm, find?_erase_self]
  · rw [find?_erase_of_ne hk]
    by_cases hj : key = j
    · rw [hj, find?_insert_self, find?_insert_self]
    · rw [find?_insert_of_ne hj, find?_insert_of_ne hj, find?_erase_of_ne hk]

/-- A key greater than all others goes to the end. -/
theorem insert_eq_append {k : κ} {v : α} {m : Assoc κ α} (h : ∀ p ∈ m, p.1 < k) :
    insert k v m = m ++ [(k, v)] := by
  induction m with
  | nil => rfl
  | cons p rest ih =>
    obtain ⟨j, w⟩ := p
    have hlt : j < k := h (j, w) List.mem_cons_self
    have hne : j ≠ k := fun heq => Std.lt_irrefl (heq ▸ hlt)
    have hnlt : ¬ k < j := fun hk => Std.lt_irrefl (Std.lt_trans hlt hk)
    rw [insert, if_neg hne, if_neg hnlt, ih fun p hp => h p (List.mem_cons_of_mem _ hp)]
    rfl

theorem Sorted.insert_eq_append {k : κ} {v : α} {m n : Assoc κ α} (h : Sorted (m ++ (k, v) :: n)) :
    Assoc.insert k v m = m ++ [(k, v)] :=
  Assoc.insert_eq_append fun p hp =>
    (List.pairwise_append.mp h).2.2 p hp (k, v) List.mem_cons_self

theorem Sorted.foldl_insert_eq_append {m n : Assoc κ α} (h : Sorted (m ++ n)) :
    n.foldl (fun m p => Assoc.insert p.1 p.2 m) m = m ++ n := by
  induction n generalizing m with
  | nil => rw [List.foldl_nil, List.append_nil]
  | cons p n ih =>
    have hcons : m ++ p :: n = (m ++ [p]) ++ n := by rw [List.append_assoc, List.singleton_append]
    rw [List.foldl_cons, h.insert_eq_append, ih (hcons ▸ h), ← hcons]

/-- A list whose keys increase is the map of its pairs. -/
theorem Sorted.ofList_eq {m : Assoc κ α} (h : Sorted m) : ofList m = m :=
  Sorted.foldl_insert_eq_append (m := []) h

end Order

end EntityStore.Assoc
