import EntityStore.Proofs.Files.Bytes
import EntityStore.Proofs.Store.Scan
import EntityStore.Proofs.Store.Stopped
import Mathlib.Logic.Relation

/-! Batches half saved by atomic writes: at each moment every record is whole. -/
namespace EntityStore.Store

variable {s : Store} {t t' u dir base : Tree} {k : Kind} {name : String} {e : Entity}
  {es : List Entity}

section Model

/-- The form of the names of temporary files. -/
def IsTemporaryName (name : String) : Prop := ∃ middle, name = "." ++ middle ++ ".tmp"

/-- A temporary file, with the bytes that it still lacks. -/
structure Temporary where
  name : String
  lacking : ByteArray

/-- A batch half saved: the entities whose records are not in place, and the temporary file of the
first of them, while there is one. -/
structure Progress where
  tree : Tree
  todo : List Entity
  temporary : Option Temporary

/-- One change of the file tree, while records appear by renames. Bytes come in pieces. -/
inductive Progress.Moves (s : Store) : Progress → Progress → Prop
  | makeDirectory {t t' : Tree} {e : Entity} {es : List Entity}
      (hmake : t.makeDirectory (s.namespacePath e.kind) = .ok t') :
      Moves s ⟨t, e :: es, none⟩ ⟨t', e :: es, none⟩
  | create {t t' : Tree} {e : Entity} {es : List Entity} {name : String}
      (hname : IsTemporaryName name)
      (hcreate : t.create (s.namespacePath e.kind ++ [name]) = .ok t') :
      Moves s ⟨t, e :: es, none⟩ ⟨t', e :: es, some ⟨name, (s.encode e.toRecord).toUTF8⟩⟩
  | append {t t' : Tree} {e : Entity} {es : List Entity} {name : String} {bytes rest : ByteArray}
      (happend : t.appendBytes (s.namespacePath e.kind ++ [name]) bytes = .ok t') :
      Moves s ⟨t, e :: es, some ⟨name, bytes ++ rest⟩⟩ ⟨t', e :: es, some ⟨name, rest⟩⟩
  | rename {t t' : Tree} {e : Entity} {es : List Entity} {name : String}
      (hrename : t.rename (s.namespacePath e.kind ++ [name]) (s.recordPath e.kind e.id) = .ok t') :
      Moves s ⟨t, e :: es, some ⟨name, .empty⟩⟩ ⟨t', es, none⟩

def Progress.Reaches (s : Store) : Progress → Progress → Prop :=
  Relation.ReflTransGen (Moves s)

/-- The store without atomic writes. -/
def plain (s : Store) : Store := { s with options := { s.options with atomicWrites := false } }

/-- What stands at a place is what stood there, or all of the record of an entity of the batch. -/
def WholeAt (s : Store) (t : Tree) (es : List Entity) (u : Tree) (p : Path) : Prop :=
  u.node? p = t.node? p ∨ ∃ e ∈ es, s.recordPath e.kind e.id = p ∧
    u.node? p = some (.file (.text (s.encode e.toRecord)))

/-- A tree that shows a batch in whole records only, to lookups and to scans. -/
structure Whole (s : Store) (t : Tree) (es : List Entity) (u : Tree) : Prop where
  record : ∀ k id, s.WholeAt t es u (s.recordPath k id)
  lookup : ∀ k id, s.get u id (some k) = s.get t id (some k) ∨ ∃ e ∈ es, e.kind = k ∧ e.id = id ∧
    u.readText (s.recordPath k id) = .ok (s.encode e.toRecord)
  scanned : ∀ k, ∀ name ∈ s.recordNames u k, ¬ IsTemporaryName name ∧
    s.WholeAt t es u (s.namespacePath k ++ [name])
  kept : ∀ k, ∀ name ∈ s.recordNames t k, name ∈ s.recordNames u k

/-- The steps of a batch, those of one record after those of another. -/
def batchSteps (s : Store) (t : Tree) : List Entity → List Step
  | [] => []
  | e :: es =>
    let steps := s.writeSteps t (s.pending e)
    steps ++ s.batchSteps (runSteps t steps).1 es

end Model

section Names

theorem IsTemporaryName.ne_fileName (h : IsTemporaryName name) (id : String) :
    name ≠ fileName id := by
  obtain ⟨middle, rfl⟩ := h
  exact tmp_ne_fileName _ id

theorem ne_recordPath_of_isTemporaryName (h : IsTemporaryName name) (j k : Kind) (id : String) :
    s.recordPath k id ≠ s.namespacePath j ++ [name] := by
  intro heq
  obtain ⟨-, hfile⟩ := List.append_inj' heq rfl
  exact h.ne_fileName id (List.singleton_inj.mp hfile).symm

theorem Eligible.exists_fileName (h : s.Eligible t k name) : ∃ id, name = fileName id := by
  obtain ⟨c, stem, -, hname⟩ := h.named
  refine ⟨String.ofList (c :: stem), String.toList_injective ?_⟩
  simp [fileName, hname]

end Names

section Stages

/-- The tree in which the directory of a kind was made, unless it was there. -/
def Entered (s : Store) (base : Tree) (k : Kind) (dir : Tree) : Prop :=
  runSteps base (if base.isDirectory (s.namespacePath k) then []
    else [.makeDirectory (s.namespacePath k)]) = (dir, .ok ())

/-- What is added to the tree in which all records before are in place. -/
inductive Stage (s : Store) (base : Tree) : Progress → Prop
  | between {es : List Entity} : Stage s base ⟨base, es, none⟩
  | entered {dir : Tree} {e : Entity} {es : List Entity}
      (hmake : base.makeDirectory (s.namespacePath e.kind) = .ok dir) :
      Stage s base ⟨dir, e :: es, none⟩
  | writing {dir : Tree} {e : Entity} {es : List Entity} {name : String}
      {written lacking : ByteArray} (hname : IsTemporaryName name)
      (hdir : s.Entered base e.kind dir)
      (hfresh : dir.node? (s.namespacePath e.kind ++ [name]) = none)
      (hbytes : written ++ lacking = (s.encode e.toRecord).toUTF8) :
      Stage s base ⟨dir.put (s.namespacePath e.kind ++ [name]) (.file (.ofBytes written)),
        e :: es, some ⟨name, lacking⟩⟩

theorem entered_of_makeDirectory (h : base.makeDirectory (s.namespacePath k) = .ok dir) :
    s.Entered base k dir := by
  have hnone := (Tree.makeDirectory_eq_ok_iff.mp h).1
  have hmissing : base.isDirectory (s.namespacePath k) = false := by
    simp [Tree.isDirectory, hnone]
  unfold Entered
  rw [hmissing, if_neg Bool.false_ne_true, runSteps_cons_of_ok (x := .makeDirectory _) [] h]
  rfl

theorem entered_of_node? (h : base.node? (s.namespacePath k) = some .directory) :
    s.Entered base k base := by
  unfold Entered
  rw [Tree.isDirectory_iff.mpr h, if_pos rfl]
  rfl

theorem Entered.node? (h : s.Entered base k dir) (p : Path) :
    dir.node? p = if p = s.namespacePath k then some .directory else base.node? p :=
  (node?_directorySteps h).2 p

theorem Entered.proper (h : s.Entered base k dir) (hbase : base.Proper) : dir.Proper := by
  unfold Entered at h
  split_ifs at h
  · cases h
    exact hbase
  · obtain ⟨u, hmake, hu⟩ := runSteps_cons_eq_ok_iff.mp h
    cases hu
    exact hbase.makeDirectory hmake

variable {σ τ : Progress}

theorem Stage.proper (h : Stage s base σ) (hbase : base.Proper) : σ.tree.Proper := by
  cases h with
  | between => exact hbase
  | entered hmake => exact hbase.makeDirectory hmake
  | @writing dir e es name written lacking hname hdir hfresh hbytes =>
    have hparent : dir.node? (s.namespacePath e.kind) = some .directory := by
      rw [hdir.node?, if_pos rfl]
    refine (hdir.proper hbase).put (List.concat_ne_nil _ _) ?_ fun hplace => ?_
    · rw [List.dropLast_concat, hparent]
    · rw [hfresh] at hplace
      cases hplace

/-- Nothing that is added stands in the place of a record. -/
theorem Stage.node?_recordPath (h : Stage s base σ) (k : Kind) (id : String) :
    σ.tree.node? (s.recordPath k id) = base.node? (s.recordPath k id) := by
  cases h with
  | between => rfl
  | entered hmake =>
    rw [(Tree.node?_makeDirectory hmake).2, if_neg (recordPath_ne_namespacePath _ _ _)]
  | writing hname hdir hfresh hbytes =>
    rw [Tree.node?_put _ (List.concat_ne_nil _ _),
      if_neg (ne_recordPath_of_isTemporaryName hname _ _ _), hdir.node?,
      if_neg (recordPath_ne_namespacePath _ _ _)]

theorem writeAll_append_of_ok {ps : List Pending} (qs : List Pending)
    (h : s.writeAll t ps = (u, .ok ())) : s.writeAll t (ps ++ qs) = s.writeAll u qs := by
  induction ps generalizing t with
  | nil =>
    cases h
    rfl
  | cons p ps ih =>
    rw [writeAll] at h
    rw [List.cons_append, writeAll]
    split at h
    next v hv => exact ih h
    next => cases h

/-- Some records are in place as plain writes put them, and the rest of the batch is to be done. -/
def Progress.Sound (s : Store) (t : Tree) (es : List Entity) (σ : Progress) : Prop :=
  ∃ done base, es = done ++ σ.todo ∧
    s.plain.writeAll t (done.map s.plain.pending) = (base, .ok ()) ∧ Stage s base σ

/-- A file that is moved into its place, whole, is there as if it had been written there. -/
theorem writeAll_rename (hdir : s.Entered base e.kind dir)
    (hfresh : dir.node? (s.namespacePath e.kind ++ [name]) = none) (hname : IsTemporaryName name)
    (hrename : (dir.put (s.namespacePath e.kind ++ [name])
      (.file (.text (s.encode e.toRecord)))).rename
        (s.namespacePath e.kind ++ [name]) (s.recordPath e.kind e.id) = .ok u) :
    s.plain.writeAll base [s.plain.pending e] = (u, .ok ()) := by
  obtain ⟨c, hc, -, hfree, rfl⟩ := Tree.rename_eq_ok_iff.mp hrename
  have hne : s.recordPath e.kind e.id ≠ s.namespacePath e.kind ++ [name] :=
    ne_recordPath_of_isTemporaryName hname _ _ _
  have htemporary : s.namespacePath e.kind ++ [name] ≠ [] := List.concat_ne_nil _ _
  rw [Tree.node?_put _ htemporary, if_pos rfl] at hc
  rw [Tree.node?_put _ htemporary, if_neg hne] at hfree
  cases hc
  have hparent : dir.node? (s.recordPath e.kind e.id).dropLast = some .directory := by
    rw [recordPath, List.dropLast_concat, hdir.node?, if_pos rfl]
  have hwrite : dir.write (s.recordPath e.kind e.id) (.text (s.encode e.toRecord)) =
      .ok (dir.put (s.recordPath e.kind e.id) (.file (.text (s.encode e.toRecord)))) :=
    Tree.write_eq_ok_iff.mpr ⟨hparent, hfree, rfl⟩
  have hsteps : runSteps base (s.plain.writeSteps base (s.plain.pending e)) =
      (dir.put (s.recordPath e.kind e.id) (.file (.text (s.encode e.toRecord))), .ok ()) :=
    runSteps_append_eq_ok_iff.mpr ⟨dir, hdir,
      runSteps_cons_of_ok (x := .write (s.recordPath e.kind e.id) (s.encode e.toRecord)) [] hwrite⟩
  rw [writeAll, hsteps, Tree.erase_put hfresh]
  rfl

theorem Progress.Sound.move (h : σ.Sound s t es) (hmove : Moves s σ τ) : τ.Sound s t es := by
  obtain ⟨done, base, hes, hbase, hstage⟩ := h
  cases hmove with
  | makeDirectory hmake =>
    cases hstage with
    | between => exact ⟨done, base, hes, hbase, .entered hmake⟩
    | entered hmade =>
      -- It was made already.
      have hnone := (Tree.makeDirectory_eq_ok_iff.mp hmake).1
      rw [(Tree.node?_makeDirectory hmade).2, if_pos rfl] at hnone
      cases hnone
  | @create t₁ t₂ e es' name hname hcreate =>
    obtain ⟨hfresh, hparent, rfl⟩ := Tree.create_eq_ok_iff.mp hcreate
    rw [List.dropLast_concat] at hparent
    have hdir : s.Entered base e.kind t₁ := by
      cases hstage with
      | between => exact entered_of_node? hparent
      | entered hmake => exact entered_of_makeDirectory hmake
    have hempty : Content.text "" = .ofBytes ByteArray.empty := (Content.ofBytes_toUTF8 "").symm
    rw [hempty]
    exact ⟨done, base, hes, hbase, .writing hname hdir hfresh ByteArray.empty_append⟩
  | append happend =>
    cases hstage with
    | writing hname hdir hfresh hbytes =>
      obtain ⟨c, hc, rfl⟩ := Tree.appendBytes_eq_ok_iff.mp happend
      rw [Tree.node?_put _ (List.concat_ne_nil _ _), if_pos rfl] at hc
      cases hc
      rw [Tree.put_put, Content.bytes_ofBytes]
      rw [← ByteArray.append_assoc] at hbytes
      exact ⟨done, base, hes, hbase, .writing hname hdir hfresh hbytes⟩
  | @rename t₁ t₂ e es' name hrename =>
    cases hstage with
    | writing hname hdir hfresh hbytes =>
      rw [ByteArray.append_empty] at hbytes
      rw [hbytes, Content.ofBytes_toUTF8] at hrename
      refine ⟨done ++ [e], t₂, ?_, ?_, .between⟩
      · rw [hes, List.append_assoc]
        rfl
      · rw [List.map_append, writeAll_append_of_ok _ hbase]
        exact writeAll_rename hdir hfresh hname hrename

theorem Progress.Sound.of_reaches (h : Reaches s ⟨t, es, none⟩ σ) : σ.Sound s t es := by
  induction h with
  | refl => exact ⟨[], t, rfl, rfl, .between⟩
  | tail _ hmove ih => exact ih.move hmove

end Stages

section Readers

/-- Scans read nothing but places of records. -/
theorem whole_of_record (ht : t.Proper) (hu : u.Proper)
    (h : ∀ k id, s.WholeAt t es u (s.recordPath k id)) : s.Whole t es u := by
  refine ⟨h, fun k id => ?_, fun k name hname => ?_, fun k name hname => ?_⟩
  · rcases h k id with hsame | ⟨e, he, hpath, hnode⟩
    · exact .inl (get_congr hsame)
    · obtain ⟨hkind, hid⟩ := recordPath_injective hpath
      exact .inr ⟨e, he, hkind, hid, Tree.readText_eq_ok_iff.mpr hnode⟩
  · obtain ⟨id, rfl⟩ := ((mem_recordNames_iff hu).mp hname).exists_fileName
    exact ⟨fun htemporary => htemporary.ne_fileName id rfl, h k id⟩
  · have helig := (mem_recordNames_iff ht).mp hname
    obtain ⟨id, rfl⟩ := helig.exists_fileName
    obtain ⟨c, hc⟩ := Tree.isFile_iff.mp helig.file
    have hfile : u.isFile (s.recordPath k id) = true := by
      rcases h k id with hsame | ⟨e, -, -, hnode⟩
      · exact Tree.isFile_iff.mpr ⟨c, hsame.trans hc⟩
      · exact Tree.isFile_iff.mpr ⟨_, hnode⟩
    exact (mem_recordNames_iff hu).mpr ⟨hfile, helig.named⟩

theorem Progress.Sound.whole {σ : Progress} (ht : t.Proper) (h : σ.Sound s t es) :
    s.Whole t es σ.tree := by
  obtain ⟨done, base, hes, hbase, hstage⟩ := h
  have hproper : base.Proper := by
    have hall := proper_writeAll ht s.plain (done.map s.plain.pending)
    rwa [hbase] at hall
  refine whole_of_record ht (hstage.proper hproper) fun k id => ?_
  have hsaved : s.plain.Saved t done base := saved_of_writeAll hbase
  unfold WholeAt
  rw [hstage.node?_recordPath]
  cases hlast : lastOf? k id done with
  | some e =>
    obtain ⟨hmem, rfl, rfl⟩ := mem_of_lastOf? hlast
    have he : e ∈ es := hes ▸ List.mem_append_left _ hmem
    exact .inr ⟨e, he, rfl, hsaved.record e.kind e.id e hlast⟩
  | none =>
    refine .inl (hsaved.elsewhere _ fun e he => ⟨fun heq => ?_, recordPath_ne_namespacePath _ _ _⟩)
    obtain ⟨hkind, hid⟩ := recordPath_injective heq
    exact lastOf?_eq_none_iff.mp hlast e he ⟨hkind.symm, hid.symm⟩

end Readers

section Steps

variable {start σ τ : Progress} {x : Step} {xs ys : List Step} {next mid : Tree → Progress}

/-- Moves lead to the tree after any number of some steps, also if one fails, and to a certain state
after all of them. -/
structure Follows (s : Store) (start : Progress) (t : Tree) (steps : List Step)
    (next : Tree → Progress) : Prop where
  taken : ∀ n, ∃ σ, Progress.Reaches s start σ ∧ σ.tree = (runSteps t (steps.take n)).1
  all : ∀ u, runSteps t steps = (u, .ok ()) → Progress.Reaches s start (next u)

theorem Follows.nil (h : Progress.Reaches s start (next t)) (htree : (next t).tree = t) :
    Follows s start t [] next := by
  refine ⟨fun n => ⟨next t, h, ?_⟩, fun u hu => ?_⟩
  · rw [List.take_nil]
    exact htree
  · cases hu
    exact h

theorem Follows.cons (h : Progress.Reaches s start σ) (htree : σ.tree = t)
    (hfail : ∀ err, x.run t = .error err →
      ∃ τ, Progress.Reaches s start τ ∧ τ.tree = x.abandon t)
    (hrun : ∀ u, x.run t = .ok u → Follows s start u xs next) :
    Follows s start t (x :: xs) next := by
  refine ⟨fun n => ?_, fun u hu => ?_⟩
  · cases n with
    | zero => exact ⟨σ, h, htree⟩
    | succ n =>
      rw [List.take_succ_cons, runSteps]
      cases hx : x.run t with
      | ok u => exact (hrun u hx).taken n
      | error err => exact hfail err hx
  · obtain ⟨v, hv, hrest⟩ := runSteps_cons_eq_ok_iff.mp hu
    exact (hrun v hv).all u hrest

theorem Follows.append (h : Follows s start t xs mid)
    (hrest : ∀ u, runSteps t xs = (u, .ok ()) → Follows s start u ys next) :
    Follows s start t (xs ++ ys) next := by
  refine ⟨fun n => ?_, fun u hu => ?_⟩
  · have hfirst := h.taken n
    rw [List.take_append, runSteps_append]
    split
    next u hu =>
      rw [hu] at hfirst
      -- Either all of the first steps are taken, or none of those after them.
      by_cases hn : xs.length ≤ n
      · rw [List.take_of_length_le hn] at hu
        exact (hrest u hu).taken _
      · rw [Nat.sub_eq_zero_of_le (Nat.le_of_not_le hn), List.take_zero]
        exact hfirst
    next u err hu =>
      rwa [hu] at hfirst
  · obtain ⟨v, hv, hys⟩ := runSteps_append_eq_ok_iff.mp hu
    exact (hrest v hv).all u hys

/-- A file is moved to its place, or taken away. -/
theorem follows_fileSteps (hname : IsTemporaryName name)
    (h : Progress.Reaches s start ⟨t, e :: es, none⟩) :
    Follows s start t [.create (s.namespacePath e.kind ++ [name]),
      .append (s.namespacePath e.kind ++ [name]) (s.encode e.toRecord),
      .rename (s.namespacePath e.kind ++ [name]) (s.recordPath e.kind e.id)]
      fun u => ⟨u, es, none⟩ := by
  refine .cons h rfl (fun _ _ => ⟨_, h, rfl⟩) fun u hcreate => ?_
  have hu := h.tail (.create hname hcreate)
  refine .cons hu rfl (fun _ _ => ⟨_, hu, rfl⟩) fun v happend => ?_
  rw [← ByteArray.append_empty (b := (s.encode e.toRecord).toUTF8)] at hu
  have hv := hu.tail (.append (Tree.appendBytes_toUTF8 happend))
  refine .cons hv rfl (fun _ _ => ⟨_, h, ?_⟩) fun w hrename => .nil (hv.tail (.rename hrename)) rfl
  obtain ⟨hfresh, hwritten⟩ := append_of_create hcreate (s.encode e.toRecord)
  cases happend.symm.trans hwritten
  exact (Tree.erase_put_of_node? hfresh _ _).symm

theorem follows_writeSteps (hatomic : s.options.atomicWrites = true)
    (h : Progress.Reaches s start ⟨t, e :: es, none⟩) :
    Follows s start t (s.writeSteps t (s.pending e)) fun u => ⟨u, es, none⟩ := by
  have hdir : Follows s start t (if t.isDirectory (s.namespacePath e.kind) then []
      else [.makeDirectory (s.namespacePath e.kind)]) fun u => ⟨u, e :: es, none⟩ := by
    split_ifs
    · exact .nil h rfl
    · refine .cons h rfl (fun _ _ => ⟨_, h, rfl⟩) fun u hmake => ?_
      exact .nil (h.tail (.makeDirectory hmake)) rfl
  unfold writeSteps
  rw [hatomic, if_pos rfl]
  exact hdir.append fun u hu => follows_fileSteps ⟨_, rfl⟩ (hdir.all u hu)

theorem follows_batchSteps (hatomic : s.options.atomicWrites = true)
    (h : Progress.Reaches s start ⟨t, es, none⟩) :
    Follows s start t (s.batchSteps t es) fun u => ⟨u, [], none⟩ := by
  induction es generalizing t with
  | nil => exact .nil h rfl
  | cons e es ih =>
    have hrecord := follows_writeSteps hatomic h
    refine hrecord.append fun u hu => ?_
    have hrest := ih (hrecord.all u hu)
    rwa [hu]

theorem writeAll_eq_runSteps (s : Store) (t : Tree) (es : List Entity) :
    s.writeAll t (es.map s.pending) = ((runSteps t (s.batchSteps t es)).1,
      (runSteps t (s.batchSteps t es)).2.mapError .io) := by
  induction es generalizing t with
  | nil => rfl
  | cons e es ih =>
    rw [List.map_cons, writeAll, batchSteps, runSteps_append]
    obtain ⟨u, err | written⟩ := runSteps t (s.writeSteps t (s.pending e))
    · rfl
    · exact ih u

theorem prepareAll_eq_ok_iff {overwrite : Bool} {ps : List Pending} :
    s.prepareAll t overwrite [] es = .ok ps ↔
      s.firstObjection? t overwrite [] es = none ∧ es.map s.pending = ps := by
  have hseen : ∀ p, List.contains ([] : List Path) p =
      ([] : List Entity).any fun f => s.recordPath f.kind f.id = p := fun _ => rfl
  rw [prepareAll_eq hseen]
  cases s.firstObjection? t overwrite [] es <;> simp

/-- A batch that passes its checks is written by moves, and whatever moves lead to, each record is
whole. Once all of the batch is in place the tree is that of a save without atomic writes. -/
theorem saveAll_whole (s : Store) (hatomic : s.options.atomicWrites = true) (t : Tree)
    (ht : t.Proper) (es : List Entity) (overwrite : Bool) (ps : List Pending)
    (hchecked : s.prepareAll t overwrite [] es = .ok ps) :
    (∀ σ, Progress.Reaches s ⟨t, es, none⟩ σ → s.Whole t es σ.tree) ∧
      (∀ u, Progress.Reaches s ⟨t, es, none⟩ ⟨u, [], none⟩ →
        s.plain.saveAll t es overwrite = (u, .ok ())) ∧
      Follows s ⟨t, es, none⟩ t (s.batchSteps t es) (fun u => ⟨u, [], none⟩) ∧
      s.saveAll t es overwrite = ((runSteps t (s.batchSteps t es)).1,
        (runSteps t (s.batchSteps t es)).2.mapError .io) := by
  obtain ⟨hnone, -⟩ := prepareAll_eq_ok_iff.mp hchecked
  refine ⟨fun σ hσ => (Progress.Sound.of_reaches hσ).whole ht, fun u hu => ?_,
    follows_batchSteps hatomic .refl, ?_⟩
  · obtain ⟨done, base, hes, hbase, hstage⟩ := Progress.Sound.of_reaches hu
    cases hstage
    rw [List.append_nil] at hes
    subst hes
    have hplain : s.plain.firstObjection? t overwrite [] es = none := hnone
    rw [saveAll_eq, hplain]
    exact hbase
  · rw [saveAll_eq, hnone]
    exact writeAll_eq_runSteps s t es

/-- A tree with a temporary file that a crash left. -/
def leftover : Tree := ⟨[(["Device"], .directory), (["Device", ".0.tmp"], .file (.text "\x7b"))]⟩

theorem saveAll_whole_leftover :
    ∃ u, saveAll ⟨[], ".", {}⟩ leftover mixed false = (u, .ok ()) ∧
      saveAll (plain ⟨[], ".", {}⟩) leftover mixed false = (u, .ok ()) ∧
      ∀ n, Whole ⟨[], ".", {}⟩ leftover mixed
        (runSteps leftover ((batchSteps ⟨[], ".", {}⟩ leftover mixed).take n)).1 := by
  obtain ⟨hwhole, hplain, hfollows, hsave⟩ := saveAll_whole ⟨[], ".", {}⟩ rfl leftover (by decide)
    mixed false _ (prepareAll_eq_ok_iff.mpr ⟨by decide +kernel, rfl⟩)
  have hok : (runSteps leftover (batchSteps ⟨[], ".", {}⟩ leftover mixed)).2 = .ok () := by
    decide +kernel
  have hreach := hfollows.all _ (Prod.ext rfl hok)
  rw [hok] at hsave
  refine ⟨_, hsave, hplain _ hreach, fun n => ?_⟩
  obtain ⟨σ, hσ, htree⟩ := hfollows.taken n
  rw [← htree]
  exact hwhole σ hσ

end Steps

end EntityStore.Store
