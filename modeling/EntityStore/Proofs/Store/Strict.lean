import EntityStore.Proofs.Entity.Diagnostics
import EntityStore.Proofs.Store.Scan
import EntityStore.Proofs.Store.Stopped

/-! Stores that ask for canonical case: what they have written is read back without diagnostics. -/
namespace EntityStore.Store

variable {s u : Store} {t t' : Tree} {e f : Entity} {es : List Entity} {root : Path}

section Batch

/-- A strict store has no objection to entities without diagnostics only. -/
theorem caseDiagnostics_eq_nil {overwrite : Bool} {earlier : List Entity}
    (hstrict : s.options.strictCase = true)
    (h : s.firstObjection? t overwrite earlier es = none) (he : e ∈ es) :
    e.caseDiagnostics = [] := by
  obtain ⟨before, after, rfl⟩ := List.append_of_mem he
  obtain ⟨-, hself⟩ := firstObjection?_of_append h
  rw [objection?, Option.or_eq_none_iff, if_pos hstrict, Option.map_eq_none_iff,
    List.head?_eq_none_iff] at hself
  exact hself.1

/-- A batch, whether it ends well or not, has saved some of its entities. If the store is strict
they have no diagnostics. -/
theorem exists_saved (ht : t.Proper) (s : Store) (es : List Entity) (overwrite : Bool) :
    ∃ before, before <+: es ∧ s.Saved t before (s.saveAll t es overwrite).1 ∧
      (s.options.strictCase = true → ∀ e ∈ before, e.caseDiagnostics = []) := by
  rw [saveAll_eq]
  cases hfirst : s.firstObjection? t overwrite [] es with
  | some err => exact ⟨[], List.nil_prefix, .nil s t, fun _ => nofun⟩
  | none =>
    have hclean (hstrict : s.options.strictCase = true) (e : Entity) (he : e ∈ es) :
        e.caseDiagnostics = [] := caseDiagnostics_eq_nil hstrict hfirst he
    cases hwrite : s.writeAll t (es.map s.pending) with
    | mk t' outcome =>
      cases outcome with
      | ok => exact ⟨es, List.prefix_rfl, saved_of_writeAll hwrite, hclean⟩
      | error err =>
        obtain ⟨before, e, after, rfl, hbefore, -⟩ := exists_written_of_writeAll ht hwrite
        exact ⟨before, List.prefix_append _ _, saved_of_writeAll hbefore,
          fun hstrict e he => hclean hstrict e (List.mem_append_left _ he)⟩

end Batch

/-- A tree in which each file in the place of a record under a root is the text that some store
writes for a well formed entity without diagnostics. -/
def Canonical (root : Path) (t : Tree) : Prop :=
  ∀ s : Store, s.root = root → ∀ k id c, t.node? (s.recordPath k id) = some (.file c) →
    ∃ (u : Store) (e : Entity), e.WellFormed ∧ e.caseDiagnostics = [] ∧
      c = .text (u.encode e.toRecord)

theorem canonical_of_empty (h : ∀ p ≠ [], t.node? (root ++ p) = none) : Canonical root t := by
  rintro s rfl k id c hnode
  have hne : [k.name] ++ [fileName id] ≠ [] := List.cons_ne_nil _ _
  rw [recordPath, namespacePath, List.append_assoc, h _ hne] at hnode
  cases hnode

theorem Canonical.saved (ht : Canonical root t) (hs : s.root = root) (h : s.Saved t es t')
    (hreach : ∀ e ∈ es, e.Reachable) (hclean : ∀ e ∈ es, e.caseDiagnostics = []) :
    Canonical root t' := by
  rintro v hv k id c hnode
  have hplace : v.recordPath k id = s.recordPath k id := by
    unfold recordPath namespacePath
    rw [hv, hs]
  rw [hplace] at hnode
  cases hlast : lastOf? k id es with
  | some e =>
    obtain ⟨he, rfl, rfl⟩ := mem_of_lastOf? hlast
    rw [h.record _ _ e hlast] at hnode
    cases hnode
    exact ⟨s, e, (hreach e he).wellFormed, hclean e he, rfl⟩
  | none =>
    refine ht s hs k id c ?_
    rw [← h.elsewhere _ fun e he => ⟨fun heq => ?_, recordPath_ne_namespacePath _ _ _⟩]
    · exact hnode
    · obtain ⟨hkind, hid⟩ := recordPath_injective heq
      exact lastOf?_eq_none_iff.mp hlast e he ⟨hkind.symm, hid.symm⟩

/-- What is read from a text of a well formed entity has the diagnostics of the entity. -/
theorem caseDiagnostics_of_encode {r : Record} (he : e.WellFormed)
    (hparse : Json.parseMembers? (u.encode e.toRecord) = some r)
    (hf : Entity.ofRecord r = .ok f) : f.caseDiagnostics = e.caseDiagnostics := by
  refine he.caseDiagnostics_of_reread ?_ hf
  unfold encode Json.pretty Json.compact at hparse
  cases hformat : u.options.outputFormat with
  | pretty =>
    rw [hformat] at hparse
    exact Json.memberRereads_of_parseMembers? Json.Layout.blank_pretty he.sorted_toRecord hparse
  | compact =>
    rw [hformat] at hparse
    exact Json.memberRereads_of_parseMembers? Json.Layout.blank_compact he.sorted_toRecord hparse

theorem Canonical.holds {k : Kind} {name : String} (ht : Canonical s.root t)
    (h : s.Holds t k name f) : f.caseDiagnostics = [] := by
  obtain ⟨text, r, hnode, hparse, hof⟩ := h.record
  rw [← h.name_eq] at hnode
  obtain ⟨u, e, he, hclean, htext⟩ := ht s rfl k f.id _ hnode
  cases htext
  rw [caseDiagnostics_of_encode he hparse hof, hclean]

/-- What a look-up finds, in one kind or in all, is held by a file. -/
theorem exists_holds_of_get {id : String} {kind : Option Kind}
    (h : s.get t id kind = .ok (some f)) : ∃ k, s.Holds t k (fileName id) f := by
  unfold get at h
  split at h
  next k _ =>
    obtain ⟨e, hread, hsome⟩ := Except.map_eq_ok_iff.mp h
    cases hsome
    exact ⟨k, readRecord_eq_ok_iff.mp hread⟩
  next => cases h

namespace Call

/-- A call through a store on a root that asks for canonical case, with entities that callers can
hold. -/
structure Strict (root : Path) (c : Call) : Prop where
  root_eq : c.store.root = root
  strict : c.store.options.strictCase = true
  reachable : ∀ e ∈ c.batch, e.Reachable

theorem Strict.canonical_run {c : Call} (hc : c.Strict root) (hproper : t.Proper)
    (ht : Canonical root t) : Canonical root (c.run t).1 := by
  obtain ⟨before, hbefore, hsaved, hclean⟩ :=
    exists_saved hproper c.store c.batch c.overwrite
  rw [run_eq_saveAll]
  exact ht.saved hc.root_eq hsaved (fun e he => hc.reachable e (hbefore.subset he))
    (hclean hc.strict)

theorem canonical_runAll (hproper : t.Proper) (ht : Canonical root t) {calls : List Call}
    (hcalls : ∀ c ∈ calls, c.Strict root) : Canonical root (runAll t calls) := by
  induction calls generalizing t with
  | nil => exact ht
  | cons c cs ih =>
    obtain ⟨hc, hcs⟩ := List.forall_mem_cons.mp hcalls
    have hnext : (c.run t).1.Proper := by
      rw [run_eq_saveAll]
      exact proper_saveAll hproper _ _ _
    exact ih hnext (hc.canonical_run hproper ht) hcs

/-- Whatever is saved through strict stores where there was nothing, whether the calls succeed or
not, no entity that is found or listed has diagnostics. And the diagnostics of an entity, whatever
was done to it, are those of the texts that are no options, and those of its construction. -/
theorem caseDiagnostics_runAll (root : Path) (t : Tree) (hproper : t.Proper)
    (hempty : ∀ p ≠ [], t.node? (root ++ p) = none) (calls : List Call)
    (hcalls : ∀ c ∈ calls, c.Strict root) :
    (∀ s : Store, s.root = root →
      (∀ id kind f, s.get (runAll t calls) id kind = .ok (some f) → f.caseDiagnostics = []) ∧
        ∀ kind fs, s.list (runAll t calls) kind = .ok fs → ∀ f ∈ fs, f.caseDiagnostics = []) ∧
      ∀ e : Entity, e.Reachable → e.Diagnosed := by
  have hcanonical := canonical_runAll hproper (canonical_of_empty hempty) hcalls
  refine ⟨?_, fun e he => he.wellFormed.diagnosed⟩
  rintro s rfl
  constructor
  · intro id kind f hget
    obtain ⟨k, hheld⟩ := exists_holds_of_get hget
    exact hcanonical.holds hheld
  · intro kind fs hlist f hf
    have hheld := (mem_list_iff (Call.proper_runAll hproper calls) hlist).mp hf
    exact hcanonical.holds hheld

/-- A device whose types are the given ones. -/
def sensor (types : List String) : Entity :=
  ⟨"cd613e30-d8f1-4adf-91b7-584a2265b1f5", .device,
    [("device_types", .list (types.map .str)), ("name", .string "probe")]⟩

theorem reachable_sensor {types : List String} (ds : List CaseDiagnostic)
    (h : Entity.construct .device (some "cd613e30-d8f1-4adf-91b7-584a2265b1f5") ""
      (sensor types).attributes = .ok (sensor types, ds)) : (sensor types).Reachable := by
  have hid : some "cd613e30-d8f1-4adf-91b7-584a2265b1f5" = none →
      Id.isUuid4 "".toList = true := nofun
  exact .construct hid h

/-- A device that is saved, and then one in another letter case that is refused in its place. -/
def strictCalls : List Call := [
  .save ⟨[], ".", { strictCase := true }⟩ (sensor ["Sensor", "IoT"]) false,
  .saveAll ⟨[], "./", ⟨.compact, false, true⟩⟩ [sensor ["Sensor", "iot", "HMI"]] true]

theorem caseDiagnostics_strictCalls :
    (∃ f, get ⟨[], ".", {}⟩ (runAll .empty strictCalls) "cd613e30-d8f1-4adf-91b7-584a2265b1f5"
        none = .ok (some f) ∧ f.caseDiagnostics = []) ∧
      (sensor ["Sensor", "iot", "HMI"]).Diagnosed ∧
      (sensor ["Sensor", "iot", "HMI"]).caseDiagnostics = [⟨.deviceType, "iot", "IoT"⟩] := by
  have hclean : (sensor ["Sensor", "IoT"]).Reachable := reachable_sensor [] rfl
  have hstray : (sensor ["Sensor", "iot", "HMI"]).Reachable :=
    reachable_sensor [⟨.deviceType, "iot", "IoT"⟩] rfl
  have hcalls : ∀ c ∈ strictCalls, c.Strict [] := by
    intro c hc
    rcases List.mem_pair.mp hc with rfl | rfl
    · exact ⟨rfl, rfl, List.forall_mem_singleton.mpr hclean⟩
    · exact ⟨rfl, rfl, List.forall_mem_singleton.mpr hstray⟩
  have hempty : ∀ p : Path, p ≠ [] → Tree.empty.node? ([] ++ p) = none := by
    intro p hp
    cases p with
    | nil => exact absurd rfl hp
    | cons => rfl
  obtain ⟨hread, hdiagnosed⟩ :=
    caseDiagnostics_runAll [] .empty (by decide) hempty strictCalls hcalls
  have hfound : (get ⟨[], ".", {}⟩ (runAll .empty strictCalls)
      "cd613e30-d8f1-4adf-91b7-584a2265b1f5" none).toOption.join.isSome = true := by
    decide +kernel
  obtain ⟨f, hf⟩ := Option.isSome_iff_exists.mp hfound
  have hget := Except.toOption_eq_some_iff.mp (Option.join_eq_some_iff.mp hf)
  exact ⟨⟨f, hget, (hread _ rfl).1 _ _ f hget⟩, hdiagnosed _ hstray, by decide⟩

end Call

end EntityStore.Store
