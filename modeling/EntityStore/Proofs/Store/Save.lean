import EntityStore.Proofs.Entity.Invariant
import EntityStore.Proofs.Files.Tree
import EntityStore.Store.Save
import Mathlib.Data.List.Infix

/-! Batches: what is refused changes nothing, and what is saved changes nothing else. -/
namespace EntityStore.Store

variable {s : Store} {t t' : Tree}

section Places

theorem recordPath_injective {j k : Kind} {id id' : String}
    (h : s.recordPath j id = s.recordPath k id') : j = k ∧ id = id' := by
  unfold recordPath namespacePath at h
  obtain ⟨hdir, hfile⟩ := List.append_inj' h rfl
  have hkind := List.append_cancel_left hdir
  exact ⟨Kind.name_injective (List.singleton_inj.mp hkind),
    (String.append_left_inj ".json").mp (List.singleton_inj.mp hfile)⟩

theorem recordPath_ne_namespacePath (j k : Kind) (id : String) :
    s.recordPath j id ≠ s.namespacePath k := by
  intro h
  have hlen := congrArg List.length h
  simp [recordPath, namespacePath] at hlen

/-- A temporary file is never taken for a record: their names end in different letters. -/
theorem tmp_ne_fileName (stem id : String) : stem ++ ".tmp" ≠ fileName id := by
  intro h
  have hlast := congrArg (fun name : String => name.toList.getLast?) h
  simp only [fileName, String.toList_append] at hlast
  rw [List.getLast?_append_of_ne_nil _ (by simp),
    List.getLast?_append_of_ne_nil _ (by simp)] at hlast
  simp at hlast

theorem temporaryPath_ne_recordPath (s : Store) (t : Tree) (k : Kind) (id : String) :
    temporaryPath t (s.namespacePath k) ≠ s.recordPath k id := by
  intro h
  exact tmp_ne_fileName _ id (List.singleton_inj.mp (List.append_cancel_left h))

end Places

section Write

theorem runSteps_append (t : Tree) (xs ys : List Step) :
    runSteps t (xs ++ ys) = match runSteps t xs with
      | (u, .ok ()) => runSteps u ys
      | (u, .error err) => (u, .error err) := by
  induction xs generalizing t with
  | nil => rfl
  | cons x xs ih =>
    simp only [List.cons_append, runSteps]
    cases x.run t with
    | ok u => exact ih u
    | error err => rfl

theorem runSteps_append_eq_ok_iff {xs ys : List Step} :
    runSteps t (xs ++ ys) = (t', .ok ()) ↔
      ∃ u, runSteps t xs = (u, .ok ()) ∧ runSteps u ys = (t', .ok ()) := by
  rw [runSteps_append]
  obtain ⟨u, err | done⟩ := runSteps t xs <;> simp

theorem runSteps_cons_eq_ok_iff {x : Step} {xs : List Step} :
    runSteps t (x :: xs) = (t', .ok ()) ↔
      ∃ u, x.run t = .ok u ∧ runSteps u xs = (t', .ok ()) := by
  rw [runSteps]
  cases x.run t <;> simp

/-- The directory step makes the directory, or finds it. -/
theorem node?_directorySteps {dir : Path}
    (h : runSteps t (if t.isDirectory dir then [] else [.makeDirectory dir]) = (t', .ok ())) :
    (∀ p, t.node? p = some .directory → t'.node? p = some .directory) ∧
      ∀ p, t'.node? p = if p = dir then some .directory else t.node? p := by
  split_ifs at h with hdir
  · cases h
    refine ⟨fun _ hp => hp, fun p => ?_⟩
    split_ifs with hp
    · rw [hp, Tree.isDirectory_iff.mp hdir]
    · rfl
  · obtain ⟨u, hmake, hu⟩ := runSteps_cons_eq_ok_iff.mp h
    cases hu
    obtain ⟨-, hnode⟩ := Tree.node?_makeDirectory hmake
    refine ⟨fun p hp => ?_, hnode⟩
    rw [hnode, hp, ite_self]

/-- The file steps put the text at the place, whole, and leave no temporary file. -/
theorem node?_fileSteps {temporary path : Path} {text : String} {atomic : Bool}
    (hne : temporary ≠ path)
    (h : runSteps t (if atomic then
        [.create temporary, .append temporary text, .rename temporary path]
      else [.write path text]) = (t', .ok ())) :
    t.node? path ≠ some .directory ∧
      ∀ p, t'.node? p = if p = path then some (.file (.text text)) else t.node? p := by
  cases atomic with
  | false =>
    obtain ⟨u, hwrite, hu⟩ := runSteps_cons_eq_ok_iff.mp h
    cases hu
    exact Tree.node?_write hwrite
  | true =>
    obtain ⟨u, hcreate, h⟩ := runSteps_cons_eq_ok_iff.mp h
    obtain ⟨v, happend, h⟩ := runSteps_cons_eq_ok_iff.mp h
    obtain ⟨w, hrename, h⟩ := runSteps_cons_eq_ok_iff.mp h
    cases h
    obtain ⟨hfresh, hu⟩ := Tree.node?_create hcreate
    have hv := Tree.node?_append (by rw [hu, if_pos rfl]) happend
    obtain ⟨hfree, hw⟩ := Tree.node?_rename (by rw [hv, if_pos rfl]) hrename
    rw [hv, if_neg hne.symm, hu, if_neg hne.symm] at hfree
    refine ⟨hfree, fun p => ?_⟩
    -- The temporary file was not there before, and is not after.
    rw [hw, String.empty_append]
    split_ifs with hp htmp
    · rfl
    · rw [htmp, hfresh]
    · rw [hv, if_neg htmp, hu, if_neg htmp]

/-- The last entity of a batch with a kind and an id. -/
def lastOf? (k : Kind) (id : String) (es : List Entity) : Option Entity :=
  es.reverse.find? fun e => e.kind = k && e.id = id

theorem lastOf?_cons (k : Kind) (id : String) (e : Entity) (es : List Entity) :
    lastOf? k id (e :: es) =
      (lastOf? k id es).or (if e.kind = k ∧ e.id = id then some e else none) := by
  unfold lastOf?
  rw [List.reverse_cons, List.find?_append]
  by_cases h : e.kind = k ∧ e.id = id <;> simp [h]

theorem mem_of_lastOf? {k : Kind} {id : String} {e : Entity} {es : List Entity}
    (h : lastOf? k id es = some e) : e ∈ es ∧ e.kind = k ∧ e.id = id :=
  ⟨List.mem_reverse.mp (List.mem_of_find?_eq_some h), by simpa using List.find?_some h⟩

theorem lastOf?_eq_none_iff {k : Kind} {id : String} {es : List Entity} :
    lastOf? k id es = none ↔ ∀ e ∈ es, ¬(e.kind = k ∧ e.id = id) := by
  simp [lastOf?]

/-- What a batch does to a tree when it is saved: each of its records is that of its last entity
with the kind and the id, its kinds have their directories, and all else stays. -/
structure Saved (s : Store) (t : Tree) (es : List Entity) (t' : Tree) : Prop where
  record : ∀ k id e, lastOf? k id es = some e →
    t'.node? (s.recordPath k id) = some (.file (.text (s.encode e.toRecord)))
  directory : ∀ e ∈ es, t'.node? (s.namespacePath e.kind) = some .directory
  kept : ∀ p, t.node? p = some .directory → t'.node? p = some .directory
  elsewhere : ∀ p, (∀ e ∈ es, p ≠ s.recordPath e.kind e.id ∧ p ≠ s.namespacePath e.kind) →
    t'.node? p = t.node? p

/-- What is to be written for an entity. -/
def pending (s : Store) (e : Entity) : Pending :=
  ⟨s.namespacePath e.kind, s.recordPath e.kind e.id, s.encode e.toRecord⟩

theorem node?_writeSteps {e : Entity}
    (h : runSteps t (s.writeSteps t (s.pending e)) = (t', .ok ())) :
    (∀ p, t.node? p = some .directory → t'.node? p = some .directory) ∧
      ∀ p, t'.node? p =
        if p = s.recordPath e.kind e.id then some (.file (.text (s.encode e.toRecord)))
        else if p = s.namespacePath e.kind then some .directory else t.node? p := by
  obtain ⟨u, hdir, hfile⟩ := runSteps_append_eq_ok_iff.mp h
  obtain ⟨hkept, hu⟩ := node?_directorySteps hdir
  obtain ⟨hfree, ht'⟩ := node?_fileSteps (temporaryPath_ne_recordPath s t e.kind e.id) hfile
  refine ⟨fun p hp => ?_, fun p => by rw [ht', hu]; rfl⟩
  have hne : p ≠ s.recordPath e.kind e.id := by
    rintro rfl
    exact hfree (hkept _ hp)
  rw [ht', if_neg hne, hkept p hp]

theorem Saved.nil (s : Store) (t : Tree) : s.Saved t [] t :=
  ⟨nofun, nofun, fun _ hp => hp, fun _ _ => rfl⟩

/-- One entity is written, and then the rest of the batch. -/
theorem Saved.cons {u : Tree} {e : Entity} {es : List Entity}
    (h : runSteps t (s.writeSteps t (s.pending e)) = (u, .ok ())) (hes : s.Saved u es t') :
    s.Saved t (e :: es) t' := by
  obtain ⟨hkept, hu⟩ := node?_writeSteps h
  have hdir : u.node? (s.namespacePath e.kind) = some .directory := by
    rw [hu, if_neg (recordPath_ne_namespacePath _ _ _).symm, if_pos rfl]
  refine ⟨fun k id f hf => ?_, fun f hf => ?_, fun p hp => hes.kept p (hkept p hp),
    fun p hp => ?_⟩
  · rw [lastOf?_cons, Option.or_eq_some_iff] at hf
    -- Either a later entity counts, or no later write touches the record of this one.
    rcases hf with hf | ⟨hnone, hf⟩
    · exact hes.record k id f hf
    · split_ifs at hf with hkey
      cases hf
      obtain ⟨rfl, rfl⟩ := hkey
      rw [hes.elsewhere, hu, if_pos rfl]
      intro g hg
      refine ⟨fun heq => ?_, recordPath_ne_namespacePath _ _ _⟩
      obtain ⟨hkind, hid⟩ := recordPath_injective heq
      exact lastOf?_eq_none_iff.mp hnone g hg ⟨hkind.symm, hid.symm⟩
  · rcases List.mem_cons.mp hf with rfl | hf
    · exact hes.kept _ hdir
    · exact hes.directory f hf
  · obtain ⟨hrecord, hnamespace⟩ := hp e List.mem_cons_self
    rw [hes.elsewhere p fun f hf => hp f (List.mem_cons_of_mem _ hf), hu, if_neg hrecord,
      if_neg hnamespace]

theorem saved_of_writeAll {es : List Entity}
    (h : s.writeAll t (es.map s.pending) = (t', .ok ())) : s.Saved t es t' := by
  induction es generalizing t with
  | nil =>
    cases h
    exact .nil s _
  | cons e es ih =>
    rw [List.map_cons, writeAll] at h
    split at h
    next u hwrite => exact .cons hwrite (ih h)
    next => cases h

/-- Only the file system stops what is being written. -/
theorem writeAll_eq_ok_or_io (s : Store) (t : Tree) (ps : List Pending) :
    (s.writeAll t ps).2 = .ok () ∨ ∃ err, (s.writeAll t ps).2 = .error (.io err) := by
  induction ps generalizing t with
  | nil => exact .inl rfl
  | cons p ps ih =>
    rw [writeAll]
    split
    next u _ => exact ih u
    next err _ => exact .inr ⟨err, rfl⟩

end Write

section Check

/-- Why a batch stops at an entity that comes after others: its first option in another case, if the
store is strict, or else a record in its place that must not be replaced. -/
def objection? (s : Store) (t : Tree) (overwrite : Bool) (earlier : List Entity) (e : Entity) :
    Option Error :=
  let path := s.recordPath e.kind e.id
  let used := earlier.any fun f => s.recordPath f.kind f.id = path
  (if s.options.strictCase then
    e.caseDiagnostics.head?.map fun d => .refused (.invalid (.nonCanonicalCase d))
  else none).or
    (if !overwrite && (t.has path || used) then some (.conflict e.kind e.id) else none)

/-- Why a batch that comes after others stops, at the first of its entities at which it does. -/
def firstObjection? (s : Store) (t : Tree) (overwrite : Bool) (earlier es : List Entity) :
    Option Error :=
  (es.inits.zip es).findSome? fun (before, e) => s.objection? t overwrite (earlier ++ before) e

theorem firstObjection?_cons (s : Store) (t : Tree) (overwrite : Bool) (earlier : List Entity)
    (e : Entity) (es : List Entity) :
    s.firstObjection? t overwrite earlier (e :: es) =
      (s.objection? t overwrite earlier e).or
        (s.firstObjection? t overwrite (earlier ++ [e]) es) := by
  unfold firstObjection?
  rw [List.inits_cons, List.zip_cons_cons, List.findSome?_cons, List.zip_map_left,
    List.findSome?_map]
  dsimp only
  rw [List.append_nil]
  cases s.objection? t overwrite earlier e with
  | some err => rfl
  | none => simp [Function.comp_def]

theorem prepare_eq {overwrite : Bool} {seen : List Path} {earlier : List Entity}
    (hseen : ∀ p, seen.contains p = earlier.any fun f => s.recordPath f.kind f.id = p)
    (e : Entity) :
    s.prepare t overwrite seen e = match s.objection? t overwrite earlier e with
      | some err => .error err
      | none => .ok (s.pending e) := by
  have hcase : checkCase e = match e.caseDiagnostics.head? with
      | some d => .error (.refused (.invalid (.nonCanonicalCase d)))
      | none => .ok () := by
    unfold checkCase
    cases e.caseDiagnostics <;> rfl
  unfold prepare objection?
  dsimp only
  rw [hcase, hseen]
  cases s.options.strictCase <;> cases e.caseDiagnostics.head? <;> cases overwrite <;>
    cases t.has (s.recordPath e.kind e.id) <;>
    cases earlier.any fun f => s.recordPath f.kind f.id = s.recordPath e.kind e.id <;> rfl

theorem prepareAll_eq {overwrite : Bool} {seen : List Path} {earlier : List Entity}
    (hseen : ∀ p, seen.contains p = earlier.any fun f => s.recordPath f.kind f.id = p)
    (es : List Entity) :
    s.prepareAll t overwrite seen es = match s.firstObjection? t overwrite earlier es with
      | some err => .error err
      | none => .ok (es.map s.pending) := by
  induction es generalizing seen earlier with
  | nil => rfl
  | cons e es ih =>
    -- What comes before the others is what came before this one, and this one.
    have hrest : ∀ p, ((s.pending e).path :: seen).contains p =
        (earlier ++ [e]).any fun f => s.recordPath f.kind f.id = p := by
      intro p
      rw [List.contains_cons, hseen, List.any_append, Bool.or_comm]
      by_cases hp : s.recordPath e.kind e.id = p
      · simp [pending, hp]
      · simp [pending, hp, Ne.symm hp]
    rw [prepareAll, prepare_eq hseen, firstObjection?_cons]
    cases s.objection? t overwrite earlier e with
    | some err => rfl
    | none =>
      rw [Option.none_or, Except.ok_bind, ih hrest]
      cases s.firstObjection? t overwrite (earlier ++ [e]) es <;> rfl

theorem saveAll_eq (s : Store) (t : Tree) (es : List Entity) (overwrite : Bool) :
    s.saveAll t es overwrite = match s.firstObjection? t overwrite [] es with
      | some err => (t, .error err)
      | none => s.writeAll t (es.map s.pending) := by
  have hseen : ∀ p, ([] : List Path).contains p =
      ([] : List Entity).any fun f => s.recordPath f.kind f.id = p := fun _ => rfl
  rw [saveAll, prepareAll_eq hseen]
  cases s.firstObjection? t overwrite [] es <;> rfl

theorem saved_of_saveAll {es : List Entity} {overwrite : Bool}
    (h : (s.saveAll t es overwrite).2 = .ok ()) : s.Saved t es (s.saveAll t es overwrite).1 := by
  rw [saveAll_eq] at h ⊢
  cases hfirst : s.firstObjection? t overwrite [] es with
  | some cause =>
    rw [hfirst] at h
    cases h
  | none =>
    rw [hfirst] at h
    exact saved_of_writeAll (Prod.ext rfl h)

/-- A batch stops at the first of its entities that must not be saved, and then nothing has changed.
If there is none, all of it is saved, unless the file system stops it. -/
theorem saveAll_all_or_nothing (s : Store) (t : Tree) (es : List Entity) (overwrite : Bool)
    (hio : ∀ err, (s.saveAll t es overwrite).2 ≠ .error (.io err)) :
    match s.firstObjection? t overwrite [] es with
    | some err => s.saveAll t es overwrite = (t, .error err)
    | none => ∃ t', s.saveAll t es overwrite = (t', .ok ()) ∧ s.Saved t es t' := by
  rw [saveAll_eq] at hio ⊢
  cases hfirst : s.firstObjection? t overwrite [] es with
  | some err => rfl
  | none =>
    rw [hfirst] at hio
    have hok : (s.writeAll t (es.map s.pending)).2 = .ok () := by
      rcases writeAll_eq_ok_or_io s t (es.map s.pending) with hok | ⟨err, herr⟩
      · exact hok
      · exact absurd herr (hio err)
    have hpair : s.writeAll t (es.map s.pending)
        = ((s.writeAll t (es.map s.pending)).1, .ok ()) := Prod.ext rfl hok
    exact ⟨_, hpair, saved_of_writeAll hpair⟩

/-- A batch with two entities for one record. -/
def namesakes : List Entity := [
  ⟨"6e2f0f2d-bd49-4ed5-b3ab-4e5d8c1a1c05", .persona, [("name", .string "first")]⟩,
  ⟨"6e2f0f2d-bd49-4ed5-b3ab-4e5d8c1a1c05", .persona, [("name", .string "second")]⟩]

theorem saveAll_namesakes :
    ∃ t', saveAll ⟨[], ".", {}⟩ .empty namesakes true = (t', .ok ()) ∧
      Saved ⟨[], ".", {}⟩ .empty namesakes t' :=
  saveAll_all_or_nothing ⟨[], ".", {}⟩ .empty namesakes true fun err => by
    cases err <;> decide +kernel

end Check

end EntityStore.Store
