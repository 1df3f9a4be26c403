import EntityStore.Proofs.Store.Scan
import EntityStore.Proofs.Store.Source

/-! Searches: ids looked up together are answered as they are one by one. -/
namespace EntityStore.Store

variable {s : Store} {t : Tree} {kind : Option Kind} {id : String} {ids : List String} {e : Entity}

/-- What an id looked up by itself leads to. A failure leads to nothing. -/
def found? (s : Store) (t : Tree) (kind : Option Kind) (id : String) : Option Entity :=
  match s.get t id kind with
  | .ok r => r
  | .error _ => none

theorem found?_of_get {r : Option Entity} (h : s.get t id kind = .ok r) :
    s.found? t kind id = r := by
  unfold found?
  rw [h]

/-- An entity that is found has the id that was asked for, in whatever kind. -/
theorem id_eq_of_get (h : s.get t id kind = .ok (some e)) : e.id = id := by
  unfold get at h
  cases hk : s.locate? t (s.scope t kind) id with
  | none =>
    rw [hk] at h
    cases h
  | some k =>
    rw [hk] at h
    obtain ⟨f, hread, hf⟩ := Except.map_eq_ok_iff.mp h
    cases hf
    have hheld := readRecord_eq_ok_iff.mp hread
    exact fileName_injective hheld.name_eq

section Many

/-- The answer to one more id. -/
def Lookup.answer (id : String) (r : Option Entity) (l : Lookup) : Lookup :=
  match r with
  | some e => ⟨e :: l.found, l.missing⟩
  | none => ⟨l.found, id :: l.missing⟩

/-- The first id is looked up by itself, and then the others. -/
theorem getMany_cons (s : Store) (t : Tree) (id : String) (ids : List String)
    (kind : Option Kind) :
    s.getMany t (id :: ids) kind =
      (s.get t id kind >>= fun r => (s.getMany t ids kind).map (Lookup.answer id r)) := by
  unfold getMany get
  rw [lookup]
  cases s.locate? t (s.scope t kind) id with
  | none => cases s.lookup t (s.scope t kind) ids <;> rfl
  | some k =>
    dsimp only
    cases s.readRecord t k (fileName id) with
    | error err => rfl
    | ok e => cases s.lookup t (s.scope t kind) ids <;> rfl

/-- A lookup sorts ids by what each leads to: the entities in the order of the ids, one for each id
that leads to one and with this id, and all other ids in their order. -/
structure Lookup.Sorts (l : Lookup) (find : String → Option Entity) (ids : List String) :
    Prop where
  found : l.found = ids.filterMap find
  requested : l.found.map (·.id) = ids.filter fun id => (find id).isSome
  missing : l.missing = ids.filter fun id => (find id).isNone
  total : l.found.length + l.missing.length = ids.length

theorem Lookup.Sorts.answer {l : Lookup} {find : String → Option Entity} (h : l.Sorts find ids)
    (hid : ∀ e, find id = some e → e.id = id) : (l.answer id (find id)).Sorts find (id :: ids) := by
  obtain ⟨hfound, hrequested, hmissing, htotal⟩ := h
  unfold Lookup.answer
  cases hfind : find id with
  | none =>
    refine ⟨?_, ?_, ?_, ?_⟩
    · rw [List.filterMap_cons_none hfind]
      exact hfound
    · rw [List.filter_cons_of_neg (by simp [hfind])]
      exact hrequested
    · rw [List.filter_cons_of_pos (by simp [hfind]), ← hmissing]
    · simp only [List.length_cons]
      omega
  | some e =>
    refine ⟨?_, ?_, ?_, ?_⟩
    · rw [List.filterMap_cons_some hfind, ← hfound]
    · rw [List.filter_cons_of_pos (by simp [hfind]), ← hrequested, List.map_cons, hid e hfind]
    · rw [List.filter_cons_of_neg (by simp [hfind])]
      exact hmissing
    · simp only [List.length_cons]
      omega

theorem exists_getMany (h : ∀ id ∈ ids, ∃ r, s.get t id kind = .ok r) :
    ∃ l, s.getMany t ids kind = .ok l ∧ l.Sorts (s.found? t kind) ids := by
  induction ids with
  | nil => exact ⟨⟨[], []⟩, rfl, rfl, rfl, rfl, rfl⟩
  | cons id ids ih =>
    obtain ⟨r, hr⟩ := h id List.mem_cons_self
    obtain ⟨l, hl, hsorts⟩ := ih fun i hi => h i (List.mem_cons_of_mem _ hi)
    have hfound : s.found? t kind id = r := found?_of_get hr
    have hid : ∀ e, s.found? t kind id = some e → e.id = id := by
      intro e he
      rw [hfound] at he
      exact id_eq_of_get (he ▸ hr)
    refine ⟨l.answer id r, ?_, hfound ▸ hsorts.answer hid⟩
    rw [getMany_cons, hr, Except.ok_bind, hl, Except.map_ok]

/-- The ids before one that fails do not hide its failure, and those after it are not looked up. -/
theorem getMany_of_error {before after : List String} {err : Error}
    (hbefore : ∀ i ∈ before, ∃ r, s.get t i kind = .ok r) (hid : s.get t id kind = .error err) :
    s.getMany t (before ++ id :: after) kind = .error err := by
  induction before with
  | nil => rw [List.nil_append, getMany_cons, hid, Except.error_bind]
  | cons i before ih =>
    obtain ⟨r, hr⟩ := hbefore i List.mem_cons_self
    have hrest := ih fun j hj => hbefore j (List.mem_cons_of_mem _ hj)
    rw [List.cons_append, getMany_cons, hr, Except.ok_bind, hrest, Except.map_error]

end Many

section Everywhere

theorem isDirectory_of_contains (ht : t.Proper) {k : Kind} (h : s.contains t k id = true) :
    t.isDirectory (s.namespacePath k) = true := by
  obtain ⟨c, hnode⟩ := Tree.isFile_iff.mp (Bool.and_eq_true_iff.mp h).2
  have hparent := ht.node?_dropLast hnode
  unfold recordPath at hparent
  rw [List.dropLast_concat] at hparent
  exact Tree.isDirectory_iff.mpr hparent

/-- A search without a kind finds the first kind with a record of the id. -/
theorem locate?_namespaces (ht : t.Proper) (id : String) :
    s.locate? t (s.namespaces t) id = Kind.all.find? fun k => s.contains t k id := by
  unfold locate? namespaces
  rw [List.find?_filter]
  refine congrArg (fun p => Kind.all.find? p) (funext fun k => ?_)
  cases hc : s.contains t k id with
  | false => simp
  | true => simp [isDirectory_of_contains ht hc]

theorem get_of_none (ht : t.Proper) (id : String) :
    s.get t id none = match Kind.all.find? fun k => s.contains t k id with
      | some k => s.get t id (some k)
      | none => .ok none := by
  have hget : s.get t id none = match s.locate? t (s.namespaces t) id with
      | some k => (s.readRecord t k (fileName id)).map some
      | none => .ok none := rfl
  rw [hget, locate?_namespaces ht]
  cases hk : Kind.all.find? fun k => s.contains t k id with
  | none => rfl
  | some k =>
    have hc := List.find?_some hk
    dsimp only at hc ⊢
    rw [get_of_kind, if_pos hc]

end Everywhere

/-- Ids that are looked up together, repeated and ill-formed ones too, are answered as each of them
is by itself, or with the failure of the first that fails. Without a kind, an id is looked up in the
first kind that has a record of it. -/
theorem getMany_agrees_with_get (s : Store) (t : Tree) (ht : t.Proper) (ids : List String)
    (kind : Option Kind) :
    ((∀ id ∈ ids, ∃ r, s.get t id kind = .ok r) →
        ∃ l, s.getMany t ids kind = .ok l ∧ l.Sorts (s.found? t kind) ids) ∧
      (∀ before id after err, ids = before ++ id :: after →
        (∀ i ∈ before, ∃ r, s.get t i kind = .ok r) → s.get t id kind = .error err →
          s.getMany t ids kind = .error err) ∧
      ∀ id, s.get t id none = match Kind.all.find? fun k => s.contains t k id with
        | some k => s.get t id (some k)
        | none => .ok none := by
  refine ⟨exists_getMany, ?_, get_of_none ht⟩
  rintro before id after err rfl hbefore hid
  exact getMany_of_error hbefore hid

/-- A tree in which one of two records is damaged. -/
def cracked : Tree := ⟨[(["Persona"], .directory),
  (["Persona", "6e2f0f2d-bd49-4ed5-b3ab-4e5d8c1a1c05.json"], .file (.text annText)),
  (["Persona", "9293510b-534b-4dd0-b7c5-78d92e279400.json"], .file (.text "?"))]⟩

/-- Ids of which one is asked for twice, and one leads out of the store. -/
def someIds : List String := [
  "6e2f0f2d-bd49-4ed5-b3ab-4e5d8c1a1c05", "../Persona",
  "6e2f0f2d-bd49-4ed5-b3ab-4e5d8c1a1c05"]

theorem getMany_cracked : cracked.Proper ∧
    (∃ l, getMany ⟨[], ".", {}⟩ cracked someIds none = .ok l ∧
      l.found = [ann, ann] ∧ l.missing = ["../Persona"] ∧
      l.Sorts (found? ⟨[], ".", {}⟩ cracked none) someIds) ∧
    getMany ⟨[], ".", {}⟩ cracked (someIds ++ "9293510b-534b-4dd0-b7c5-78d92e279400" :: someIds)
        none =
      .error (.corrupt "./Persona/9293510b-534b-4dd0-b7c5-78d92e279400.json" .notAnObject) := by
  have hproper : cracked.Proper := by decide +kernel
  have hann : get ⟨[], ".", {}⟩ cracked "6e2f0f2d-bd49-4ed5-b3ab-4e5d8c1a1c05" none =
      .ok (some ann) := rfl
  have hout : get ⟨[], ".", {}⟩ cracked "../Persona" none = .ok none := rfl
  have hdamaged : get ⟨[], ".", {}⟩ cracked "9293510b-534b-4dd0-b7c5-78d92e279400" none =
      .error (.corrupt "./Persona/9293510b-534b-4dd0-b7c5-78d92e279400.json" .notAnObject) := rfl
  have hget : ∀ id ∈ someIds, ∃ r, get ⟨[], ".", {}⟩ cracked id none = .ok r := by
    intro id hid
    simp only [someIds, List.mem_cons, List.not_mem_nil, or_false] at hid
    obtain rfl | rfl | rfl := hid
    · exact ⟨_, hann⟩
    · exact ⟨_, hout⟩
    · exact ⟨_, hann⟩
  obtain ⟨l, hl, hsorts⟩ :=
    (getMany_agrees_with_get ⟨[], ".", {}⟩ cracked hproper someIds none).1 hget
  have hfailed := (getMany_agrees_with_get ⟨[], ".", {}⟩ cracked hproper _ none).2.1
    someIds _ someIds _ rfl hget hdamaged
  refine ⟨hproper, ⟨l, hl, ?_, ?_, hsorts⟩, hfailed⟩
  · rw [hsorts.found]
    simp [someIds, found?_of_get hann, found?_of_get hout]
  · rw [hsorts.missing]
    simp [someIds, found?_of_get hann, found?_of_get hout]

end EntityStore.Store
