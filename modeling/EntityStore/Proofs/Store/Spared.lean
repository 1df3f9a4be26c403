import EntityStore.Proofs.Store.Atomic

/-! Files that a batch spares: it replaces none but those of its own records, and these only if it
may overwrite, wherever the file system stops it. -/
namespace EntityStore.Store

variable {s : Store} {t u v : Tree} {p q : Path} {c : Content} {x : Step} {xs ys : List Step}
  {e : Entity} {es : List Entity} {overwrite : Bool}

section Failures

/-- Whether a step may leave something else at a place, also if it fails halfway. Directories are
made, and files created, where there is nothing. -/
def Step.Changes (t : Tree) : Step → Path → Prop
  | .makeDirectory p, q => q = p ∧ t.node? p = none
  | .create p, q => q = p ∧ t.node? p = none
  | .append p _, q => q = p
  | .rename source target, q => q = source ∨ q = target
  | .write p _, q => q = p

/-- The trees that steps in turn may leave when the system can fail at each of them. A step that
fails leaves anything at the places that it may change. -/
inductive MayLeave : Tree → List Step → Tree → Prop
  | done {t : Tree} : MayLeave t [] t
  | step {t u v : Tree} {x : Step} {xs : List Step} (hrun : x.run t = .ok u)
      (hrest : MayLeave u xs v) : MayLeave t (x :: xs) v
  | failed {t u : Tree} {x : Step} {xs : List Step}
      (hkept : ∀ q, ¬ x.Changes t q → u.node? q = t.node? q) : MayLeave t (x :: xs) u

/-- The trees that saving a batch may leave when the system can fail at each step. -/
def MayEnd (s : Store) (t : Tree) (es : List Entity) (overwrite : Bool) (u : Tree) : Prop :=
  match s.prepareAll t overwrite [] es with
  | .ok _ => MayLeave t (s.batchSteps t es) u
  | .error _ => u = t

/-- A tree in which a batch has spared the files of the tree before: all of them if it may not
overwrite, and otherwise those that are not in the places of its own records. -/
structure Spares (s : Store) (t : Tree) (es : List Entity) (overwrite : Bool) (u : Tree) :
    Prop where
  kept : overwrite = false → ∀ p c, t.node? p = some (.file c) → u.node? p = some (.file c)
  elsewhere : ∀ p c, t.node? p = some (.file c) →
    (∀ e ∈ es, s.recordPath e.kind e.id ≠ p) → u.node? p = some (.file c)

end Failures

section Steps

theorem Step.node?_run (hrun : x.run t = .ok u) (hq : ¬ x.Changes t q) :
    u.node? q = t.node? q := by
  cases x with
  | makeDirectory p =>
    obtain ⟨hnone, hnode⟩ := Tree.node?_makeDirectory hrun
    rw [hnode, if_neg fun h => hq ⟨h, hnone⟩]
  | create p =>
    obtain ⟨hnone, hnode⟩ := Tree.node?_create hrun
    rw [hnode, if_neg fun h => hq ⟨h, hnone⟩]
  | append p text =>
    obtain ⟨old, hold, -⟩ := Tree.append_eq_ok_iff.mp hrun
    have hne : q ≠ p := hq
    rw [Tree.node?_append hold hrun, if_neg hne]
  | rename source target =>
    obtain ⟨c, hc, -⟩ := Tree.rename_eq_ok_iff.mp hrun
    obtain ⟨hsource, htarget⟩ := not_or.mp hq
    rw [(Tree.node?_rename hc hrun).2, if_neg htarget, if_neg hsource]
  | write p text =>
    have hne : q ≠ p := hq
    rw [(Tree.node?_write hrun).2, if_neg hne]

theorem Step.node?_abandon (hq : ¬ x.Changes t q) : (x.abandon t).node? q = t.node? q := by
  cases x with
  | rename source target => exact Tree.node?_erase_of_ne (not_or.mp hq).1 t
  | _ => rfl

/-- What steps do, failing or not, is among what they may do. -/
theorem mayLeave_runSteps (t : Tree) (xs : List Step) : MayLeave t xs (runSteps t xs).1 := by
  induction xs generalizing t with
  | nil => exact .done
  | cons x xs ih =>
    rw [runSteps]
    cases hx : x.run t with
    | ok u => exact .step hx (ih u)
    | error err => exact .failed fun q hq => Step.node?_abandon hq

/-- A failure strikes before the last of some steps is done, or after it. -/
theorem MayLeave.of_append (h : MayLeave t (xs ++ ys) v) :
    MayLeave t xs v ∨ ∃ u, runSteps t xs = (u, .ok ()) ∧ MayLeave u ys v := by
  induction xs generalizing t with
  | nil => exact .inr ⟨t, rfl, h⟩
  | cons x xs ih =>
    cases h with
    | @step _ u _ _ _ hrun hrest =>
      rcases ih hrest with hleft | ⟨w, hw, hys⟩
      · exact .inl (.step hrun hleft)
      · exact .inr ⟨w, runSteps_cons_eq_ok_iff.mpr ⟨u, hrun, hw⟩, hys⟩
    | failed hkept => exact .inl (.failed hkept)

/-- Steps that change nothing at a place as long as it is as it was leave it so. -/
theorem MayLeave.node?_eq (h : MayLeave t xs u)
    (hxs : ∀ x ∈ xs, ∀ v, v.node? q = t.node? q → ¬ x.Changes v q) : u.node? q = t.node? q := by
  induction h with
  | done => rfl
  | @step t u v x xs hrun hrest ih =>
    obtain ⟨hx, hxs⟩ := List.forall_mem_cons.mp hxs
    have hsame : u.node? q = t.node? q := Step.node?_run hrun (hx t rfl)
    rw [ih fun y hy w hw => hxs y hy w (hw.trans hsame), hsame]
  | @failed t u x xs hkept => exact hkept q (hxs x List.mem_cons_self t rfl)

end Steps

section Batch

/-- The directory of a kind is only made where there is nothing. -/
theorem MayLeave.file_directorySteps {dir : Path}
    (h : MayLeave t (if t.isDirectory dir then [] else [.makeDirectory dir]) u)
    (hp : t.node? p = some (.file c)) : u.node? p = some (.file c) := by
  rw [← hp]
  refine h.node?_eq fun x hx v hv hchanges => ?_
  split_ifs at hx
  · cases hx
  · cases List.mem_singleton.mp hx
    obtain ⟨rfl, hnone⟩ := hchanges
    rw [hv, hp] at hnone
    cases hnone

/-- A temporary file is created where there is nothing, so that no file is lost in its place. -/
theorem MayLeave.file_fileSteps {temporary path : Path} {text : String} {atomic : Bool}
    (h : MayLeave t (if atomic then
        [.create temporary, .append temporary text, .rename temporary path]
      else [.write path text]) u)
    (hp : t.node? p = some (.file c)) (hne : path ≠ p) : u.node? p = some (.file c) := by
  have hsome : t.node? p ≠ none := by
    rw [hp]
    exact Option.some_ne_none _
  rw [← hp]
  cases atomic with
  | false =>
    refine h.node?_eq fun x hx v hv hchanges => ?_
    cases List.mem_singleton.mp hx
    exact hne hchanges.symm
  | true =>
    rw [if_pos rfl] at h
    by_cases htemporary : p = temporary
    · subst htemporary
      cases h with
      | step hrun _ => exact absurd (Tree.node?_create hrun).1 hsome
      | failed hkept => exact hkept p fun hchanges => hsome hchanges.2
    · refine h.node?_eq fun x hx v hv hchanges => ?_
      rcases List.mem_cons.mp hx with rfl | hx
      · exact htemporary hchanges.1
      rcases List.mem_pair.mp hx with rfl | rfl
      · exact htemporary hchanges
      · exact hchanges.elim htemporary hne.symm

theorem MayLeave.file_writeSteps (h : MayLeave t (s.writeSteps t (s.pending e)) u)
    (hp : t.node? p = some (.file c)) (hne : s.recordPath e.kind e.id ≠ p) :
    u.node? p = some (.file c) := by
  rcases MayLeave.of_append h with hdir | ⟨v, hv, hfile⟩
  · exact hdir.file_directorySteps hp
  · have hdir := mayLeave_runSteps t (if t.isDirectory (s.pending e).directory then []
      else [.makeDirectory (s.pending e).directory])
    rw [hv] at hdir
    have hkept : v.node? p = some (.file c) := hdir.file_directorySteps hp
    exact hfile.file_fileSteps hkept hne

theorem MayLeave.file_batchSteps (h : MayLeave t (s.batchSteps t es) u)
    (hp : t.node? p = some (.file c)) (hne : ∀ e ∈ es, s.recordPath e.kind e.id ≠ p) :
    u.node? p = some (.file c) := by
  induction es generalizing t with
  | nil =>
    cases h
    exact hp
  | cons e es ih =>
    obtain ⟨he, hes⟩ := List.forall_mem_cons.mp hne
    rcases MayLeave.of_append h with hrecord | ⟨v, hv, hrest⟩
    · exact hrecord.file_writeSteps hp he
    · have hkept := (mayLeave_runSteps t (s.writeSteps t (s.pending e))).file_writeSteps hp he
      rw [hv] at hkept hrest
      exact ih hrest hkept hes

/-- A batch that may not overwrite is checked to have no record in the place of anything. -/
theorem node?_recordPath_of_firstObjection? {earlier : List Entity}
    (h : s.firstObjection? t false earlier es = none) :
    ∀ e ∈ es, t.node? (s.recordPath e.kind e.id) = none := by
  induction es generalizing earlier with
  | nil => exact nofun
  | cons e es ih =>
    rw [firstObjection?_cons, Option.or_eq_none_iff] at h
    refine List.forall_mem_cons.mpr ⟨?_, ih h.2⟩
    have hplace := (Option.or_eq_none_iff.mp h.1).2
    rw [← Tree.has_eq_false_iff]
    by_contra hhas
    simp [hhas] at hplace

theorem MayEnd.spares (h : s.MayEnd t es overwrite u) : s.Spares t es overwrite u := by
  unfold MayEnd at h
  cases hprepare : s.prepareAll t overwrite [] es with
  | error err =>
    rw [hprepare] at h
    subst h
    exact ⟨fun _ _ _ hp => hp, fun _ _ hp _ => hp⟩
  | ok ps =>
    rw [hprepare] at h
    refine ⟨?_, fun p c hp hne => h.file_batchSteps hp hne⟩
    rintro rfl p c hp
    refine h.file_batchSteps hp fun e he hpath => ?_
    have hnone := node?_recordPath_of_firstObjection? (prepareAll_eq_ok_iff.mp hprepare).1 e he
    rw [hpath, hp] at hnone
    cases hnone

theorem mayEnd_saveAll (s : Store) (t : Tree) (es : List Entity) (overwrite : Bool) :
    s.MayEnd t es overwrite (s.saveAll t es overwrite).1 := by
  unfold MayEnd saveAll
  cases hprepare : s.prepareAll t overwrite [] es with
  | error err => rfl
  | ok ps =>
    obtain ⟨-, rfl⟩ := prepareAll_eq_ok_iff.mp hprepare
    show MayLeave t (s.batchSteps t es) (s.writeAll t (es.map s.pending)).1
    rw [writeAll_eq_runSteps]
    exact mayLeave_runSteps t (s.batchSteps t es)

/-- Whatever becomes of a batch, it has spared the files that were there: its own outcome, and
every tree that it may leave when the system fails at one of its steps. -/
theorem saveAll_spares_files (s : Store) (t : Tree) (es : List Entity) (overwrite : Bool) :
    s.Spares t es overwrite (s.saveAll t es overwrite).1 ∧
      s.MayEnd t es overwrite (s.saveAll t es overwrite).1 ∧
      ∀ u, s.MayEnd t es overwrite u → s.Spares t es overwrite u :=
  ⟨(mayEnd_saveAll s t es overwrite).spares, mayEnd_saveAll s t es overwrite, fun _ hu => hu.spares⟩

/-- The file in place of a namespace stops the batch, and is still there. -/
theorem saveAll_spares_occupied :
    (saveAll ⟨[], ".", {}⟩ occupied mixed false).2 = .error (.io .alreadyExists) ∧
      (saveAll ⟨[], ".", {}⟩ occupied mixed false).1.node? ["Device"] =
        some (.file (.text "x")) :=
  ⟨by decide +kernel, (saveAll_spares_files ⟨[], ".", {}⟩ occupied mixed false).1.kept rfl _ _ rfl⟩

end Batch

end EntityStore.Store
