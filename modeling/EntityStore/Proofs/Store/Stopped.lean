import EntityStore.Proofs.Store.Proper

/-! Batches that the tree stops: the records saved before that stay, whole, and nothing else has
changed. -/
namespace EntityStore.Store

variable {s : Store} {t t' u : Tree} {dir temporary path : Path} {text : String}

section Steps

theorem runSteps_cons_of_ok {x : Step} (xs : List Step) (h : x.run t = .ok u) :
    runSteps t (x :: xs) = runSteps u xs := by
  simp only [runSteps, h]

theorem runSteps_cons_of_error {x : Step} {err : IoError} (xs : List Step)
    (h : x.run t = .error err) : runSteps t (x :: xs) = (x.abandon t, .error err) := by
  simp only [runSteps, h]

/-- A file that was just created takes its text. -/
theorem append_of_create (h : t.create temporary = .ok u) (text : String) :
    t.node? temporary = none ∧
      u.append temporary text = .ok
        ((t.put temporary (.file (.text ""))).put temporary (.file (.text text))) := by
  obtain ⟨hnone, -, rfl⟩ := Tree.create_eq_ok_iff.mp h
  have hne : temporary ≠ [] := Tree.ne_nil_of_node? hnone nofun
  have hnode : (t.put temporary (.file (.text ""))).node? temporary = some (.file (.text "")) := by
    rw [Tree.node?_put t hne, if_pos rfl]
  refine ⟨hnone, Tree.append_eq_ok_iff.mpr ⟨"", hnode, ?_⟩⟩
  rw [String.empty_append]

/-- A file that cannot be written leaves the tree as it was, its temporary file taken away. -/
theorem fileSteps_of_error {err : IoError} {atomic : Bool}
    (h : runSteps t (if atomic then
        [.create temporary, .append temporary text, .rename temporary path]
      else [.write path text]) = (t', .error err)) : t' = t := by
  cases atomic with
  | false =>
    cases hwrite : (Step.write path text).run t with
    | ok u => simp [runSteps, hwrite] at h
    | error e =>
      rw [if_neg Bool.false_ne_true, runSteps_cons_of_error [] hwrite] at h
      exact (congrArg Prod.fst h).symm
  | true =>
    rw [if_pos rfl] at h
    cases hcreate : t.create temporary with
    | error e =>
      rw [runSteps_cons_of_error (x := .create temporary) _ hcreate] at h
      exact (congrArg Prod.fst h).symm
    | ok u =>
      obtain ⟨hnone, happend⟩ := append_of_create hcreate text
      rw [runSteps_cons_of_ok (x := .create temporary) _ hcreate,
        runSteps_cons_of_ok (x := .append temporary text) _ happend] at h
      -- Only the rename is left to fail, and then both puts at the temporary place are undone.
      have hundone := Tree.erase_put_of_node? hnone (.file (.text "")) (.file (.text text))
      cases hrename : (Step.rename temporary path).run
          ((t.put temporary (.file (.text ""))).put temporary (.file (.text text))) with
      | ok v => simp [runSteps, hrename] at h
      | error e =>
        rw [runSteps_cons_of_error _ hrename] at h
        have hleft := congrArg Prod.fst h
        exact hleft.symm.trans hundone

/-- A file is written in a directory where no directory stands in its place. -/
theorem exists_fileSteps (hne : temporary ≠ path) (hdir : t.node? dir = some .directory)
    (htemporary : temporary.dropLast = dir) (hpath : path.dropLast = dir)
    (hnone : t.node? temporary = none) (hfree : t.node? path ≠ some .directory) (text : String)
    (atomic : Bool) : ∃ t', runSteps t (if atomic then
        [.create temporary, .append temporary text, .rename temporary path]
      else [.write path text]) = (t', .ok ()) := by
  cases atomic with
  | false =>
    have hwrite : t.write path (.text text) = .ok (t.put path (.file (.text text))) :=
      Tree.write_eq_ok_iff.mpr ⟨hpath ▸ hdir, hfree, rfl⟩
    exact ⟨_, runSteps_cons_of_ok (x := .write path text) [] hwrite⟩
  | true =>
    have hcreate : t.create temporary = .ok (t.put temporary (.file (.text ""))) :=
      Tree.create_eq_ok_iff.mpr ⟨hnone, htemporary ▸ hdir, rfl⟩
    have hnil : temporary ≠ [] := Tree.ne_nil_of_node? hnone nofun
    have hother : dir ≠ temporary := by
      rintro rfl
      rw [hnone] at hdir
      cases hdir
    obtain ⟨-, happend⟩ := append_of_create hcreate text
    have hnode (p : Path) : ((t.put temporary (.file (.text ""))).put temporary
        (.file (.text text))).node? p = if p = temporary then some (.file (.text text))
          else t.node? p := by
      rw [Tree.node?_put _ hnil, Tree.node?_put _ hnil]
      split_ifs <;> rfl
    have hrename : ∃ t', ((t.put temporary (.file (.text ""))).put temporary
        (.file (.text text))).rename temporary path = .ok t' := by
      refine ⟨_, Tree.rename_eq_ok_iff.mpr ⟨.text text, ?_, ?_, ?_, rfl⟩⟩
      · rw [hnode, if_pos rfl]
      · rw [hnode, hpath, if_neg hother, hdir]
      · rw [hnode, if_neg hne.symm]
        exact hfree
    obtain ⟨t', hrename⟩ := hrename
    refine ⟨t', ?_⟩
    rw [if_pos rfl, runSteps_cons_of_ok (x := .create temporary) _ hcreate,
      runSteps_cons_of_ok (x := .append temporary text) _ happend,
      runSteps_cons_of_ok (x := .rename temporary path) _ hrename]
    rfl

end Steps

section Batch

/-- Below a place where there is nothing there is nothing. -/
theorem node?_below (ht : t.Proper) (hdir : t.node? dir = none) (name : String) :
    t.node? (dir ++ [name]) = none := by
  cases hnode : t.node? (dir ++ [name]) with
  | none => rfl
  | some n =>
    have hparent := ht.node?_dropLast hnode
    rw [List.dropLast_concat, hdir] at hparent
    cases hparent

/-- A record that cannot be written leaves the tree as it was. In a directory made for it there is
nothing that could stop it. -/
theorem writeSteps_of_error {e : Entity} {err : IoError} (ht : t.Proper)
    (h : runSteps t (s.writeSteps t (s.pending e)) = (t', .error err)) : t' = t := by
  unfold writeSteps at h
  rw [runSteps_append] at h
  cases hdir : t.isDirectory (s.namespacePath e.kind) with
  | true =>
    simp only [pending, hdir, if_pos, runSteps] at h
    exact fileSteps_of_error h
  | false =>
    simp only [pending, hdir, Bool.false_eq_true, if_false] at h
    cases hmake : t.makeDirectory (s.namespacePath e.kind) with
    | error e' =>
      rw [runSteps_cons_of_error (x := .makeDirectory _) [] hmake] at h
      exact (congrArg Prod.fst h).symm
    | ok u =>
      rw [runSteps_cons_of_ok (x := .makeDirectory _) [] hmake] at h
      obtain ⟨hnone, hnode⟩ := Tree.node?_makeDirectory hmake
      have hmade : u.node? (s.namespacePath e.kind) = some .directory := by
        rw [hnode, if_pos rfl]
      have hfree (name : String) : u.node? (s.namespacePath e.kind ++ [name]) = none := by
        have hne : s.namespacePath e.kind ++ [name] ≠ s.namespacePath e.kind := by simp
        rw [hnode, if_neg hne, node?_below ht hnone]
      have hplace : u.node? (s.recordPath e.kind e.id) ≠ some .directory := by
        rw [recordPath, hfree]
        exact (Option.some_ne_none _).symm
      obtain ⟨v, hv⟩ := exists_fileSteps (temporaryPath_ne_recordPath s t e.kind e.id) hmade
        List.dropLast_concat List.dropLast_concat (hfree _) hplace (s.encode e.toRecord)
        s.options.atomicWrites
      dsimp only [runSteps] at h
      rw [hv] at h
      cases h

/-- Entities that are written in turn are written up to one at which the tree stops them. -/
theorem exists_written_of_writeAll {es : List Entity} {err : Error} (ht : t.Proper)
    (h : s.writeAll t (es.map s.pending) = (t', .error err)) :
    ∃ before e after, es = before ++ e :: after ∧
      s.writeAll t (before.map s.pending) = (t', .ok ()) ∧
      s.writeAll t' [s.pending e] = (t', .error err) := by
  induction es generalizing t with
  | nil => cases h
  | cons e es ih =>
    rw [List.map_cons, writeAll] at h
    split at h
    next u hu =>
      have hproper : u.Proper := by
        have hsteps := proper_writeSteps ht s (s.pending e)
        rwa [hu] at hsteps
      obtain ⟨before, f, after, rfl, hbefore, hf⟩ := ih hproper h
      refine ⟨e :: before, f, after, rfl, ?_, hf⟩
      rw [List.map_cons, writeAll, hu]
      exact hbefore
    next u io hu =>
      cases h
      have hkept : t' = t := writeSteps_of_error ht hu
      rw [hkept] at hu ⊢
      refine ⟨[], e, es, rfl, rfl, ?_⟩
      rw [writeAll, hu]

theorem firstObjection?_of_append {overwrite : Bool} {earlier before after : List Entity}
    {e : Entity} (h : s.firstObjection? t overwrite earlier (before ++ e :: after) = none) :
    s.firstObjection? t overwrite earlier before = none ∧
      s.objection? t overwrite (earlier ++ before) e = none := by
  induction before generalizing earlier with
  | nil =>
    rw [List.nil_append, firstObjection?_cons, Option.or_eq_none_iff] at h
    rw [List.append_nil]
    exact ⟨rfl, h.1⟩
  | cons f before ih =>
    rw [List.cons_append, firstObjection?_cons, Option.or_eq_none_iff] at h
    obtain ⟨hbefore, he⟩ := ih h.2
    rw [List.append_assoc] at he
    refine ⟨?_, he⟩
    rw [firstObjection?_cons, h.1, hbefore]
    rfl

/-- What a batch is refused for is never the file system. -/
theorem firstObjection?_ne_io {overwrite : Bool} {earlier es : List Entity} {cause : Error}
    (h : s.firstObjection? t overwrite earlier es = some cause) (err : IoError) :
    cause ≠ .io err := by
  obtain ⟨⟨before, e⟩, -, hcause⟩ := List.exists_of_findSome?_eq_some h
  rintro rfl
  simp only [objection?, Option.or_eq_some_iff] at hcause
  rcases hcause with hcase | ⟨-, hplace⟩
  · split_ifs at hcase
    obtain ⟨d, -, hd⟩ := Option.map_eq_some_iff.mp hcase
    cases hd
  · split_ifs at hplace
    cases hplace

/-- A tree where a file has the name of a kind. -/
def occupied : Tree := ⟨[(["Device"], .file (.text "x"))]⟩

/-- An application, and a device that has no place in `occupied`. -/
def mixed : List Entity := [
  ⟨"cd613e30-d8f1-4adf-91b7-584a2265b1f5", .application,
    [("name", .string "PfSense"), ("version", .string "2.4.2")]⟩,
  ⟨"cd613e30-d8f1-4adf-91b7-584a2265b1f5", .device, []⟩]

end Batch

end EntityStore.Store
