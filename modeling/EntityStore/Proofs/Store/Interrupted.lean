import EntityStore.Proofs.Store.Spared

/-! Batches that the system stops at one of their steps, for whatever reason: the records before it
stay, whole, and nothing else has changed but what the record that it struck was to be given. -/
namespace EntityStore.Store

variable {s : Store} {t u v w : Tree} {p q temporary : Path} {x : Step} {xs ys : List Step}
  {e : Entity} {es : List Entity} {overwrite : Bool}

section Model

/-- What a step that the system stops may have put at a place: a directory, a temporary file, or a
record's file with the first bytes of its text. A file that cannot be moved leaves its target alone,
and may be gone or not. -/
inductive Step.Residue (t : Tree) : Step → Path → Option Node → Prop
  | made {p : Path} (hnone : t.node? p = none) : Residue t (.makeDirectory p) p (some .directory)
  | created {p : Path} (hnone : t.node? p = none) (c : Content) :
      Residue t (.create p) p (some (.file c))
  | appended {p : Path} {text : String} (c : Option Content) :
      Residue t (.append p text) p (c.map .file)
  | moved {source target : Path} (c : Option Content) :
      Residue t (.rename source target) source (c.map .file)
  | written {p : Path} {text : String} (hfree : t.node? p ≠ some .directory) (n : ℕ) :
      Residue t (.write p text) p (some (.file (.ofBytes (text.toUTF8.extract 0 n))))

/-- The trees that steps in turn may leave when the system stops one of them. -/
inductive Stopped : Tree → List Step → Tree → Prop
  | here {t u : Tree} {x : Step} {xs : List Step}
      (hleft : ∀ q, u.node? q = t.node? q ∨ x.Residue t q (u.node? q)) : Stopped t (x :: xs) u
  | later {t u v : Tree} {x : Step} {xs : List Step} (hrun : x.run t = .ok v)
      (hrest : Stopped v xs u) : Stopped t (x :: xs) u

/-- The trees that a batch which passes its checks may leave when the system stops it. -/
def MayStop (s : Store) (t : Tree) (es : List Entity) (overwrite : Bool) (u : Tree) : Prop :=
  (∃ ps, s.prepareAll t overwrite [] es = .ok ps) ∧ Stopped t (s.batchSteps t es) u

/-- A tree in which nothing has changed since another one but the places of an entity that was to be
saved. Its kind may have its directory. Its record is as it was or, without atomic writes, the first
bytes of its text. With them there may be one more temporary file. -/
structure Remains (s : Store) (t : Tree) (e : Entity) (u : Tree) : Prop where
  directory : u.node? (s.namespacePath e.kind) = t.node? (s.namespacePath e.kind) ∨
    t.node? (s.namespacePath e.kind) = none ∧
      u.node? (s.namespacePath e.kind) = some .directory
  record : u.node? (s.recordPath e.kind e.id) = t.node? (s.recordPath e.kind e.id) ∨
    s.options.atomicWrites = false ∧ t.node? (s.recordPath e.kind e.id) ≠ some .directory ∧
      ∃ n, u.node? (s.recordPath e.kind e.id) =
        some (.file (.ofBytes ((s.encode e.toRecord).toUTF8.extract 0 n)))
  elsewhere : ∃ name, IsTemporaryName name ∧
    ∀ q, q ≠ s.namespacePath e.kind → q ≠ s.recordPath e.kind e.id →
      u.node? q = t.node? q ∨ s.options.atomicWrites = true ∧ t.node? q = none ∧
        q = s.namespacePath e.kind ++ [name] ∧ ∃ c, u.node? q = some (.file c)

end Model

section Steps

theorem Step.Residue.changes {n : Option Node} (h : x.Residue t q n) : x.Changes t q := by
  cases h with
  | made hnone => exact ⟨rfl, hnone⟩
  | created hnone => exact ⟨rfl, hnone⟩
  | appended => rfl
  | moved => exact .inl rfl
  | written => rfl

theorem Stopped.mayLeave (h : Stopped t xs u) : MayLeave t xs u := by
  induction h with
  | here hleft => exact .failed fun q hq => (hleft q).resolve_right fun hres => hq hres.changes
  | later hrun _ ih => exact .step hrun ih

/-- What a failing step leaves by itself is among what it may leave. -/
theorem Step.residue_abandon (x : Step) (t : Tree) (q : Path) :
    (x.abandon t).node? q = t.node? q ∨ x.Residue t q ((x.abandon t).node? q) := by
  cases x with
  | rename source target =>
    by_cases hq : q = source
    · subst hq
      by_cases hnil : q = []
      · subst hnil
        exact .inl (by rw [Tree.node?_nil, Tree.node?_nil])
      · have hgone : (t.erase q).node? q = none := by rw [Tree.node?_erase t hnil, if_pos rfl]
        refine .inr ?_
        rw [abandon, hgone]
        exact .moved none
    · exact .inl (Tree.node?_erase_of_ne hq t)
  | _ => exact .inl rfl

theorem stopped_runSteps {err : IoError} (h : (runSteps t xs).2 = .error err) :
    Stopped t xs (runSteps t xs).1 := by
  induction xs generalizing t with
  | nil => cases h
  | cons x xs ih =>
    rw [runSteps] at h ⊢
    cases hx : x.run t with
    | ok v =>
      rw [hx] at h
      exact .later hx (ih h)
    | error err' => exact .here (x.residue_abandon t)

/-- The system stops one of some steps, or one of those after them. -/
theorem Stopped.of_append (h : Stopped t (xs ++ ys) u) :
    Stopped t xs u ∨ ∃ v, runSteps t xs = (v, .ok ()) ∧ Stopped v ys u := by
  induction xs generalizing t with
  | nil => exact .inr ⟨t, rfl, h⟩
  | cons x xs ih =>
    cases h with
    | here hleft => exact .inl (.here hleft)
    | later hrun hrest =>
      rcases ih hrest with hfirst | ⟨w, hw, hys⟩
      · exact .inl (.later hrun hfirst)
      · exact .inr ⟨w, runSteps_cons_eq_ok_iff.mpr ⟨_, hrun, hw⟩, hys⟩

theorem Stopped.of_directorySteps {dir : Path}
    (h : Stopped t (if t.isDirectory dir then [] else [.makeDirectory dir]) u) (q : Path) :
    u.node? q = t.node? q ∨ q = dir ∧ t.node? dir = none ∧ u.node? dir = some .directory := by
  split_ifs at h
  · cases h
  · cases h with
    | here hleft =>
      refine (hleft q).imp_right fun hres => ?_
      generalize hn : u.node? q = n at hres
      cases hres with
      | made hnone => exact ⟨rfl, hnone, hn⟩
    | later _ hrest => cases hrest

theorem Stopped.of_write {text : String} (h : Stopped t [.write p text] u) (q : Path) :
    u.node? q = t.node? q ∨ q = p ∧ t.node? p ≠ some .directory ∧
      ∃ n, u.node? p = some (.file (.ofBytes (text.toUTF8.extract 0 n))) := by
  cases h with
  | here hleft =>
    refine (hleft q).imp_right fun hres => ?_
    generalize hn : u.node? q = n at hres
    cases hres with
    | written hfree n => exact ⟨rfl, hfree, n, hn⟩
  | later _ hrest => cases hrest

/-- A tree is as another one, but for a file or none at one place. -/
def Beside (t : Tree) (p : Path) (u : Tree) : Prop :=
  ∀ q, u.node? q = t.node? q ∨ q = p ∧ ∃ c : Option Content, u.node? p = c.map .file

theorem Beside.trans (h : Beside t p v) (hmore : Beside v p u) : Beside t p u := by
  intro q
  rcases hmore q with hsame | hchanged
  · rcases h q with hfirst | ⟨rfl, c, hc⟩
    · exact .inl (hsame.trans hfirst)
    · exact .inr ⟨rfl, c, hsame.trans hc⟩
  · exact .inr hchanged

theorem beside_of_node? {c : Content}
    (h : ∀ q, u.node? q = if q = p then some (.file c) else t.node? q) : Beside t p u := by
  intro q
  by_cases hq : q = p
  · exact .inr ⟨hq, some c, by rw [h, if_pos rfl]; rfl⟩
  · exact .inl (by rw [h, if_neg hq])

theorem beside_of_residue (hleft : ∀ q, u.node? q = t.node? q ∨ x.Residue t q (u.node? q))
    (hx : ∀ q n, x.Residue t q n → q = p ∧ ∃ c : Option Content, n = c.map .file) :
    Beside t p u := by
  intro q
  refine (hleft q).imp_right fun hres => ?_
  obtain ⟨rfl, c, hc⟩ := hx q _ hres
  exact ⟨rfl, c, hc⟩

/-- Where there was nothing, there is nothing or a file. -/
theorem Beside.of_none (h : Beside t p u) (hnone : t.node? p = none) (q : Path) :
    u.node? q = t.node? q ∨ q = p ∧ ∃ c, u.node? p = some (.file c) := by
  rcases h q with hsame | ⟨rfl, c, hc⟩
  · exact .inl hsame
  · cases c with
    | none => exact .inl (hc.trans hnone.symm)
    | some c => exact .inr ⟨rfl, c, hc⟩

/-- As long as a file is not moved to its place, nothing changes but at the temporary one. -/
theorem Stopped.of_rename {path : Path} {text : String}
    (h : Stopped t [.create temporary, .append temporary text, .rename temporary path] u)
    (q : Path) : u.node? q = t.node? q ∨ t.node? temporary = none ∧ q = temporary ∧
      ∃ c, u.node? temporary = some (.file c) := by
  cases h with
  | here hleft =>
    refine (hleft q).imp_right fun hres => ?_
    generalize hn : u.node? q = n at hres
    cases hres with
    | created hnone c => exact ⟨hnone, rfl, c, hn⟩
  | @later _ _ v _ _ hcreate hrest =>
    obtain ⟨hnone, hv⟩ := Tree.node?_create hcreate
    suffices hrest : Beside v temporary u from
      (((beside_of_node? hv).trans hrest).of_none hnone q).imp_right fun h => ⟨hnone, h⟩
    cases hrest with
    | here hleft =>
      refine beside_of_residue hleft fun q n hres => ?_
      cases hres with
      | appended c => exact ⟨rfl, c, rfl⟩
    | @later _ _ w _ _ happend hrest =>
      have hw := Tree.node?_append (by rw [hv, if_pos rfl]) happend
      refine (beside_of_node? hw).trans ?_
      cases hrest with
      | here hleft =>
        refine beside_of_residue hleft fun q n hres => ?_
        cases hres with
        | moved c => exact ⟨rfl, c, rfl⟩
      | later _ hrest => cases hrest

end Steps

section Batch

/-- A directory is made where there is nothing, or it is there. -/
theorem made_of_directorySteps {dir : Path}
    (h : runSteps t (if t.isDirectory dir then [] else [.makeDirectory dir]) = (v, .ok ())) :
    v.node? dir = t.node? dir ∨ t.node? dir = none ∧ v.node? dir = some .directory := by
  split_ifs at h
  · cases h
    exact .inl rfl
  · obtain ⟨w, hmake, hw⟩ := runSteps_cons_eq_ok_iff.mp h
    cases hw
    obtain ⟨hnone, hnode⟩ := Tree.node?_makeDirectory hmake
    exact .inr ⟨hnone, by rw [hnode, if_pos rfl]⟩

theorem exists_temporaryName (t : Tree) (dir : Path) :
    ∃ name, IsTemporaryName name ∧ temporaryPath t dir = dir ++ [name] :=
  ⟨_, ⟨_, rfl⟩, rfl⟩

/-- What is left of a record that the system stops is at its own places. -/
theorem Stopped.remains (h : Stopped t (s.writeSteps t (s.pending e)) u) : s.Remains t e u := by
  have hplaces := recordPath_ne_namespacePath (s := s) e.kind e.kind e.id
  obtain ⟨name, hname, htemporary⟩ := exists_temporaryName t (s.namespacePath e.kind)
  rcases Stopped.of_append h with hdir | ⟨v, hv, hfile⟩
  · have hnode := hdir.of_directorySteps
    refine ⟨(hnode _).imp_right And.right, .inl ?_, name, hname, fun q hq _ => .inl ?_⟩
    · exact (hnode _).resolve_right fun hmade => hplaces hmade.1
    · exact (hnode q).resolve_right fun hmade => hq hmade.1
  -- The directory is there by now, and nothing else has changed yet.
  have hmade := made_of_directorySteps hv
  have hsame (q : Path) (hq : q ≠ s.namespacePath e.kind) : v.node? q = t.node? q := by
    rw [(node?_directorySteps hv).2]
    exact if_neg hq
  cases hatomic : s.options.atomicWrites with
  | false =>
    rw [hatomic, if_neg Bool.false_ne_true] at hfile
    have hnode := hfile.of_write
    refine ⟨?_, ?_, name, hname, fun q hq hq' => .inl ?_⟩
    · rwa [(hnode _).resolve_right fun hchanged => hplaces hchanged.1.symm]
    · refine (hnode _).imp (fun h => h.trans (hsame _ hplaces)) ?_
      rintro ⟨-, hfree, n, hn⟩
      exact ⟨hatomic, hsame _ hplaces ▸ hfree, n, hn⟩
    · exact ((hnode q).resolve_right fun hchanged => hq' hchanged.1).trans (hsame q hq)
  | true =>
    rw [hatomic, if_pos rfl] at hfile
    have hnode := hfile.of_rename
    have hrecord := temporaryPath_ne_recordPath s t e.kind e.id
    have hnamespace : temporaryPath t (s.namespacePath e.kind) ≠ s.namespacePath e.kind := by
      simp [temporaryPath]
    refine ⟨?_, .inl ?_, name, hname, fun q hq _ => ?_⟩
    · rwa [(hnode _).resolve_right fun hchanged => hnamespace hchanged.2.1.symm]
    · exact ((hnode _).resolve_right fun hchanged => hrecord hchanged.2.1.symm).trans
        (hsame _ hplaces)
    · refine (hnode q).imp (fun h => h.trans (hsame q hq)) ?_
      rintro ⟨hnone, rfl, c, hc⟩
      exact ⟨hatomic, hsame _ hnamespace ▸ hnone, htemporary, c, hc⟩

/-- A batch that the system stops is written up to the entity that it strikes. -/
theorem Stopped.exists_between (h : Stopped t (s.batchSteps t es) u) :
    ∃ before e after v, es = before ++ e :: after ∧
      s.writeAll t (before.map s.pending) = (v, .ok ()) ∧ s.Remains v e u := by
  induction es generalizing t with
  | nil => cases h
  | cons e es ih =>
    rcases Stopped.of_append h with hrecord | ⟨v, hv, hrest⟩
    · exact ⟨[], e, es, t, rfl, rfl, hrecord.remains⟩
    · rw [hv] at hrest
      obtain ⟨before, f, after, w, rfl, hbefore, hf⟩ := ih hrest
      refine ⟨e :: before, f, after, w, rfl, ?_, hf⟩
      rw [List.map_cons, writeAll, hv]
      exact hbefore

theorem mayStop_saveAll {err : IoError} (h : (s.saveAll t es overwrite).2 = .error (.io err)) :
    s.MayStop t es overwrite (s.saveAll t es overwrite).1 := by
  rw [saveAll_eq] at h ⊢
  cases hfirst : s.firstObjection? t overwrite [] es with
  | some cause =>
    rw [hfirst] at h
    exact absurd (Except.error.inj h) (firstObjection?_ne_io hfirst err)
  | none =>
    rw [hfirst] at h
    dsimp only at h ⊢
    rw [writeAll_eq_runSteps] at h ⊢
    cases hrun : (runSteps t (s.batchSteps t es)).2 with
    | ok =>
      rw [hrun] at h
      cases h
    | error cause =>
      exact ⟨⟨_, prepareAll_eq_ok_iff.mpr ⟨hfirst, rfl⟩⟩, stopped_runSteps hrun⟩

/-- A batch that the system stops at any step, for whatever reason, has spared the files that were
there, and leaves the tree that the entities before one of it leave as a batch of their own, each
record whole, with what there may be of that one entity at its own places. Neither the entities
after it nor anything else has changed anything. What the batch itself leaves when the tree stops it
is a case of this. -/
theorem saveAll_stops_between (s : Store) (t : Tree) (es : List Entity) (overwrite : Bool) :
    (∀ err, (s.saveAll t es overwrite).2 = .error (.io err) →
      s.MayStop t es overwrite (s.saveAll t es overwrite).1) ∧
    ∀ u, s.MayStop t es overwrite u → s.MayEnd t es overwrite u ∧
      ∃ before e after v, es = before ++ e :: after ∧
        s.saveAll t before overwrite = (v, .ok ()) ∧ s.Saved t before v ∧ s.Remains v e u := by
  refine ⟨fun err h => mayStop_saveAll h, ?_⟩
  rintro u ⟨⟨ps, hps⟩, hstopped⟩
  refine ⟨?_, ?_⟩
  · unfold MayEnd
    rw [hps]
    exact hstopped.mayLeave
  · obtain ⟨before, e, after, v, rfl, hbefore, he⟩ := hstopped.exists_between
    obtain ⟨hfirst, -⟩ := prepareAll_eq_ok_iff.mp hps
    obtain ⟨hearlier, -⟩ := firstObjection?_of_append hfirst
    refine ⟨before, e, after, v, rfl, ?_, saved_of_writeAll hbefore, he⟩
    rw [saveAll_eq, hearlier]
    exact hbefore

theorem saveAll_stops_mixed :
    MayStop ⟨[], ".", {}⟩ occupied mixed false (saveAll ⟨[], ".", {}⟩ occupied mixed false).1 ∧
      ∃ before e after v, mixed = before ++ e :: after ∧
        saveAll ⟨[], ".", {}⟩ occupied before false = (v, .ok ()) ∧
        Saved ⟨[], ".", {}⟩ occupied before v ∧
        Remains ⟨[], ".", {}⟩ v e (saveAll ⟨[], ".", {}⟩ occupied mixed false).1 := by
  have hstopped := (saveAll_stops_between ⟨[], ".", {}⟩ occupied mixed false).1 .alreadyExists
    (by decide +kernel)
  exact ⟨hstopped, ((saveAll_stops_between ⟨[], ".", {}⟩ occupied mixed false).2 _ hstopped).2⟩

theorem reachable_mixed : ∀ e ∈ mixed, e.Reachable := by
  have happlication : Entity.construct .application (some "cd613e30-d8f1-4adf-91b7-584a2265b1f5") ""
      [("name", .string "PfSense"), ("version", .string "2.4.2")] = .ok (mixed[0], []) := rfl
  have hdevice : Entity.construct .device (some "cd613e30-d8f1-4adf-91b7-584a2265b1f5") "" [] =
      .ok (mixed[1], []) := rfl
  have hid : some "cd613e30-d8f1-4adf-91b7-584a2265b1f5" = none →
      Id.isUuid4 "".toList = true := nofun
  intro e he
  rcases List.mem_pair.mp he with rfl | rfl
  · exact .construct hid happlication
  · exact .construct hid hdevice

/-- The tree that is left when the record of a device cannot be written to its end. -/
def cutOff : Tree := ⟨[(["Device"], .directory),
  (["Device", "cd613e30-d8f1-4adf-91b7-584a2265b1f5.json"], .file (.text ""))]⟩

theorem mayStop_cutOff : MayStop ⟨[], ".", { atomicWrites := false }⟩ .empty
    mixed.tail false cutOff := by
  refine ⟨⟨_, prepareAll_eq_ok_iff.mpr ⟨by decide +kernel, rfl⟩⟩, .later rfl (.here fun q => ?_)⟩
  have hcut : cutOff = (Tree.empty.put ["Device"] .directory).put
      ["Device", "cd613e30-d8f1-4adf-91b7-584a2265b1f5.json"] (.file (.text "")) := rfl
  by_cases hq : q = ["Device", "cd613e30-d8f1-4adf-91b7-584a2265b1f5.json"]
  · subst hq
    have hempty (bytes : ByteArray) : Content.ofBytes (bytes.extract 0 0) = .text "" := by
      rw [ByteArray.extract_same]
      exact Content.ofBytes_toUTF8 ""
    rw [hcut, Tree.node?_put _ (List.cons_ne_nil _ _), if_pos rfl, ← hempty]
    exact .inr (.written (by decide) 0)
  · rw [hcut, Tree.node?_put _ (List.cons_ne_nil _ _), if_neg hq]
    exact .inl rfl

/-- The application stays when the device cannot be written, and the record of the device may stay
half written. -/
theorem not_saveAll_stops_before :
    (¬ ∀ (s : Store) (t : Tree) (es : List Entity) (overwrite : Bool) (err : IoError), t.Proper →
      (∀ e ∈ es, e.Reachable) → (s.saveAll t es overwrite).2 = .error (.io err) →
        (s.saveAll t es overwrite).1 = t) ∧
    MayStop ⟨[], ".", { atomicWrites := false }⟩ .empty mixed.tail false cutOff ∧
      cutOff.node? ["Device", "cd613e30-d8f1-4adf-91b7-584a2265b1f5.json"] =
        some (.file (.text "")) := by
  refine ⟨fun h => ?_, mayStop_cutOff, rfl⟩
  have hsame := h ⟨[], ".", {}⟩ occupied mixed false .alreadyExists (by decide) reachable_mixed
    (by decide +kernel)
  have hmade : (saveAll ⟨[], ".", {}⟩ occupied mixed false).1.node? ["Application"] =
      some .directory := by decide +kernel
  rw [hsame] at hmade
  cases hmade

end Batch

end EntityStore.Store
