import EntityStore.Proofs.Files.Proper
import EntityStore.Proofs.Store.History

/-! Trees stay proper: through opening a store, and through saves, failed ones too. -/
namespace EntityStore

variable {t t' : Tree} {base here : Path}

namespace Tree

theorem proper_empty : Tree.empty.Proper := by
  decide

/-- Directories that were made before a failure do no harm. -/
theorem Proper.makeFirst (h : t.Proper) (css : List (List String)) :
    (t.makeFirst here css).1.Proper := by
  induction css with
  | nil => exact h
  | cons cs above ih =>
    have hmake : ∀ u u' : Tree, u.Proper →
        (do u.makeDirectory (← u.walk here (Path.withoutEndSlashes cs))) = .ok u' → u'.Proper := by
      intro u u' hu hmake
      obtain ⟨p, -, hp⟩ := Except.bind_eq_ok_iff.mp hmake
      exact hu.makeDirectory hp
    rw [Tree.makeFirst]
    split
    next u hu => exact hmake t u h hu
    next =>
      split
      next u e hu =>
        rw [hu] at ih
        exact ih
      next u hu =>
        rw [hu] at ih
        split
        next u' hu' => exact hmake u u' ih hu'
        next => exact ih
    next => exact h

theorem Proper.makeDirectories (h : t.Proper) (text : String) :
    (t.makeDirectories base text).1.Proper := by
  unfold Tree.makeDirectories
  split
  next => exact h
  next => exact h.makeFirst _

end Tree

namespace Store

variable {s : Store}

theorem proper_openAt (h : t.Proper) (rootText : String) (options : StoreOptions) :
    (openAt t base rootText options).1.Proper := by
  have hmake : (t.makeDirectories base rootText).1.Proper := h.makeDirectories rootText
  unfold openAt
  split
  next => exact h
  next =>
    split
    next u hu =>
      rw [hu] at hmake
      exact hmake
    next u e hu =>
      rw [hu] at hmake
      exact hmake

theorem Step.proper_run {x : Step} (h : t.Proper) (hrun : x.run t = .ok t') : t'.Proper := by
  cases x with
  | makeDirectory p => exact h.makeDirectory hrun
  | create p => exact h.create hrun
  | append p text => exact h.append hrun
  | rename source target => exact h.rename hrun
  | write p text => exact h.write hrun

theorem proper_runSteps_cons {x : Step} {xs : List Step}
    (hrun : ∀ u, x.run t = .ok u → (runSteps u xs).1.Proper) (hfail : (x.abandon t).Proper) :
    (runSteps t (x :: xs)).1.Proper := by
  rw [runSteps]
  cases hx : x.run t with
  | ok u => exact hrun u hx
  | error e => exact hfail

theorem proper_fileSteps (h : t.Proper) (temporary path : Path) (text : String) (atomic : Bool) :
    (runSteps t (if atomic then
        [.create temporary, .append temporary text, .rename temporary path]
      else [.write path text])).1.Proper := by
  cases atomic with
  | false => exact proper_runSteps_cons (fun u hu => Step.proper_run h hu) h
  | true =>
    refine proper_runSteps_cons (fun u hu => ?_) h
    have huproper := Step.proper_run h hu
    refine proper_runSteps_cons (fun v hv => ?_) huproper
    have hvproper := Step.proper_run huproper hv
    refine proper_runSteps_cons (fun w hw => Step.proper_run hvproper hw) ?_
    -- What a failed rename takes away is the temporary file.
    obtain ⟨old, hold, rfl⟩ := Tree.append_eq_ok_iff.mp hv
    refine hvproper.erase ?_
    rw [Tree.node?_put u (Tree.ne_nil_of_node? hold nofun), if_pos rfl]
    exact nofun

theorem proper_writeSteps (h : t.Proper) (s : Store) (p : Pending) :
    (runSteps t (s.writeSteps t p)).1.Proper := by
  unfold writeSteps
  cases t.isDirectory p.directory with
  | true => exact proper_fileSteps h _ _ _ _
  | false =>
    refine proper_runSteps_cons (fun u hu => ?_) h
    exact proper_fileSteps (Step.proper_run h hu) _ _ _ _

theorem proper_writeAll (h : t.Proper) (s : Store) (ps : List Pending) :
    (s.writeAll t ps).1.Proper := by
  induction ps generalizing t with
  | nil => exact h
  | cons p ps ih =>
    have hsteps := proper_writeSteps h s p
    rw [writeAll]
    split
    next u hu =>
      rw [hu] at hsteps
      exact ih hsteps
    next u e hu =>
      rw [hu] at hsteps
      exact hsteps

/-- A batch leaves a proper tree, whether it is saved, refused, or given up half written. -/
theorem proper_saveAll (h : t.Proper) (s : Store) (es : List Entity) (overwrite : Bool) :
    (s.saveAll t es overwrite).1.Proper := by
  unfold saveAll
  split
  next ps _ => exact proper_writeAll h s ps
  next => exact h

theorem Call.proper_runAll (h : t.Proper) (calls : List Call) : (runAll t calls).Proper := by
  unfold runAll
  induction calls generalizing t with
  | nil => exact h
  | cons c cs ih =>
    have hc : (c.run t).1.Proper := by
      rw [run_eq_saveAll]
      exact proper_saveAll h _ _ _
    exact ih hc

end Store

end EntityStore
