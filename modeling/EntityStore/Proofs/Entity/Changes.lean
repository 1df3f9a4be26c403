import EntityStore.Proofs.Entity.Construct

/-! Histories of changes: what each call answers and leaves, what stands at a name at the end, and
that calls on different targets do not notice each other. -/
namespace EntityStore.Entity

/-- What a change that succeeds hands back: diagnostics, the value that is gone, or nothing. -/
inductive Answer
  | reports (ds : List CaseDiagnostic)
  | takes (old : Option Value)
  | renames

/-- What a change answers. -/
def answer (e : Entity) : Change → Except ValidationError Answer
  | .set name v => (e.set name v).map fun out => .reports out.2
  | .unset name => (e.unset name).map fun out => .takes out.2
  | .setId id => (e.setId id).map fun _ => .renames

/-- Changes in turn, each with its answer. -/
def transcript (e : Entity) : List Change → List (Change × Except ValidationError Answer)
  | [] => []
  | c :: cs => (c, e.answer c) :: (e.change c).transcript cs

/-- The name of the attribute that a change is made to; none for the id. -/
def Change.target : Change → Option String
  | .set name _ => some name
  | .unset name => some name
  | .setId _ => none

/-- The last change of a target that succeeded. -/
def lastDone? (target : Option String) (calls : List (Change × Except ValidationError Answer)) :
    Option Change :=
  (calls.reverse.find? fun call => call.1.target == target && call.2.isOk).map Prod.fst

/-- A change made in place, in the order in which it is carried out. What it has written stays
written when a later step fails. -/
def Change.inPlace : Change → EStateM ValidationError Entity Answer
  | .set name v => do
    let a ← ofExcept ((← get).declaration name)
    let (w, ds) ← ofExcept (v.validate a)
    modify fun e => { e with attributes := Assoc.insert name w e.attributes }
    return .reports ds
  | .unset name => do
    let e ← get
    let a ← ofExcept (e.declaration name)
    if a.required then throw (.missingAttribute e.kind name)
    let old := e.get? name
    modify fun e => { e with attributes := Assoc.erase name e.attributes }
    return .takes old
  | .setId id => do
    ofExcept (Id.validate (← get).kind id)
    modify fun e => { e with id }
    return .renames

/-- What stands at an attribute after calls, by the last one on it that succeeded. -/
inductive Stands (kind : Kind) (name : String) (old : Option Value) :
    Option Change → Option Value → Prop
  | untouched : Stands kind name old none old
  | set {v w : Value} {ds : List CaseDiagnostic} (hpass : Passes kind (name, v) w ds) :
      Stands kind name old (some (.set name v)) (some w)
  | unset : Stands kind name old (some (.unset name)) none

/-- The id after calls, by the last one on it that succeeded. -/
inductive Named (old : String) : Option Change → String → Prop
  | untouched : Named old none old
  | renamed (id : String) : Named old (some (.setId id)) id

variable {e f : Entity} {c : Change} {t : Option String}

section Step

/-- What a change can do: it is refused and leaves everything as it was, or it does one thing. -/
inductive Step (e : Entity) : Change → Except ValidationError Answer → Entity → Prop
  | refused (c : Change) (err : ValidationError) : Step e c (.error err) e
  | set {name : String} {v w : Value} {report : List CaseDiagnostic}
      (hpass : Passes e.kind (name, v) w report) :
      Step e (.set name v) (.ok (.reports report)) (e.put name w)
  | unset {a : Attribute} {name : String} {old : Option Value} (ha : a ∈ e.kind.attributes)
      (hname : a.name = name) (hrequired : a.required = false) (hold : old = e.get? name) :
      Step e (.unset name) (.ok (.takes old)) { e with attributes := Assoc.erase name e.attributes }
  | setId {id : String} (hid : Id.validate e.kind id = .ok ()) :
      Step e (.setId id) (.ok .renames) { e with id }

theorem step (e : Entity) (c : Change) : Step e c (e.answer c) (e.change c) := by
  cases c with
  | set name v =>
    cases h : e.set name v with
    | error err =>
      simp only [answer, change, h, Except.map_error]
      exact .refused _ err
    | ok out =>
      obtain ⟨f, ds⟩ := out
      obtain ⟨w, hpass, rfl⟩ := set_eq_ok_iff_passes (p := (name, v)) |>.mp h
      simp only [answer, change, h, Except.map_ok]
      exact .set hpass
  | unset name =>
    cases h : e.unset name with
    | error err =>
      simp only [answer, change, h, Except.map_error]
      exact .refused _ err
    | ok out =>
      obtain ⟨f, old⟩ := out
      obtain ⟨a, ha, hrequired, rfl, rfl⟩ := unset_eq_ok_iff.mp h
      obtain ⟨hmem, hname⟩ := declaration_eq_ok_iff_mem.mp ha
      simp only [answer, change, h, Except.map_ok]
      exact .unset hmem hname hrequired rfl
  | setId id =>
    cases h : e.setId id with
    | error err =>
      simp only [answer, change, h, Except.map_error]
      exact .refused _ err
    | ok f =>
      obtain ⟨hid, rfl⟩ := setId_eq_ok_iff.mp h
      simp only [answer, change, h, Except.map_ok]
      exact .setId (Id.validate_eq_ok_iff.mpr hid)

theorem run_ofExcept {α : Type} (x : Except ValidationError α) (e : Entity) :
    (ofExcept x : EStateM ValidationError Entity α).run e =
      match x with
      | .ok a => .ok a e
      | .error err => .error err e := by
  cases x <;> rfl

/-- A change in place ends as the change does: it has written nothing when it fails. -/
theorem run_inPlace (e : Entity) (c : Change) : c.inPlace.run e =
    match e.answer c with
    | .ok r => .ok r (e.change c)
    | .error err => .error err e := by
  cases c with
  | set name v =>
    simp only [Change.inPlace, answer, change, Entity.set, EStateM.run_bind, EStateM.run_get,
      run_ofExcept]
    cases e.declaration name with
    | error err => rfl
    | ok a =>
      rw [Except.ok_bind]
      dsimp only
      cases v.validate a <;> rfl
  | unset name =>
    simp only [Change.inPlace, answer, change, Entity.unset, EStateM.run_bind, EStateM.run_get,
      run_ofExcept]
    cases e.declaration name with
    | error err => rfl
    | ok a =>
      rw [Except.ok_bind]
      dsimp only
      cases a.required <;> rfl
  | setId id =>
    simp only [Change.inPlace, answer, change, Entity.setId, EStateM.run_bind, EStateM.run_get,
      run_ofExcept]
    cases Id.validate e.kind id <;> rfl

/-- A change decides what stands at its target, if it succeeds, and leaves all else. -/
theorem Step.stands {s g : Entity} {r : Except ValidationError Answer} (h : Step s c r g)
    {old : Option Value} {last : Option Change}
    (hs : Stands s.kind name old last (s.get? name)) :
    Stands s.kind name old (if c.target = some name ∧ r.isOk = true then some c else last)
      (g.get? name) := by
  cases h with
  | refused c err => rwa [if_neg fun h => Bool.false_ne_true h.2]
  | @set other v w report hpass =>
    by_cases hname : name = other
    · subst hname
      rw [if_pos ⟨rfl, rfl⟩, get?_put_self]
      exact .set hpass
    · rw [if_neg fun h => hname (Option.some_inj.mp h.1).symm, get?_put_of_ne s hname]
      exact hs
  | @unset a other old ha hdecl hrequired hold =>
    by_cases hname : name = other
    · subst hname
      rw [if_pos ⟨rfl, rfl⟩, get?, Assoc.find?_erase_self]
      exact .unset
    · rw [if_neg fun h => hname (Option.some_inj.mp h.1).symm, get?, Assoc.find?_erase_of_ne hname]
      exact hs
  | setId hid =>
    rw [if_neg fun h => Option.some_ne_none name h.1.symm]
    exact hs

theorem Step.named {s g : Entity} {r : Except ValidationError Answer} (h : Step s c r g)
    {old : String} {last : Option Change} (hs : Named old last s.id) :
    Named old (if c.target = none ∧ r.isOk = true then some c else last) g.id := by
  cases h with
  | refused c err => rwa [if_neg fun h => Bool.false_ne_true h.2]
  | set hpass =>
    rw [if_neg fun h => Option.some_ne_none _ h.1]
    exact hs
  | unset ha hname hrequired hold =>
    rw [if_neg fun h => Option.some_ne_none _ h.1]
    exact hs
  | setId hid =>
    rw [if_pos ⟨rfl, rfl⟩]
    exact .renamed _

end Step

section Run

theorem transcript_append (e : Entity) (cs ds : List Change) :
    e.transcript (cs ++ ds) = e.transcript cs ++ (e.changeAll cs).transcript ds := by
  induction cs generalizing e with
  | nil => rfl
  | cons c cs ih =>
    rw [List.cons_append, transcript, ih, transcript]
    rfl

theorem changeAll_concat (e : Entity) (cs : List Change) (c : Change) :
    e.changeAll (cs ++ [c]) = (e.changeAll cs).change c := List.foldl_append

theorem lastDone?_concat (t : Option String) (calls : List (Change × Except ValidationError Answer))
    (c : Change) (r : Except ValidationError Answer) : lastDone? t (calls ++ [(c, r)]) =
      if c.target = t ∧ r.isOk = true then some c else lastDone? t calls := by
  rw [lastDone?, List.reverse_append, List.reverse_singleton, List.singleton_append,
    List.find?_cons]
  by_cases hdone : c.target = t ∧ r.isOk = true
  · simp [hdone]
  · rw [if_neg hdone]
    have hnot : (c.target == t && r.isOk) = false := by
      rw [← Bool.not_eq_true, Bool.and_eq_true, beq_iff_eq]
      exact hdone
    rw [hnot]
    rfl

/-- What stands at an attribute after changes is what the last successful one of it left. -/
theorem stands_changeAll (e : Entity) (cs : List Change) (name : String) :
    Stands e.kind name (e.get? name) (lastDone? (some name) (e.transcript cs))
      ((e.changeAll cs).get? name) := by
  induction cs using List.reverseRecOn with
  | nil => exact .untouched
  | append_singleton cs c ih =>
    rw [← kind_changeAll e cs] at ih ⊢
    rw [transcript_append, transcript, transcript, lastDone?_concat, changeAll_concat]
    exact (step (e.changeAll cs) c).stands ih

theorem named_changeAll (e : Entity) (cs : List Change) :
    Named e.id (lastDone? none (e.transcript cs)) (e.changeAll cs).id := by
  induction cs using List.reverseRecOn with
  | nil => exact .untouched
  | append_singleton cs c ih =>
    rw [transcript_append, transcript, transcript, lastDone?_concat, changeAll_concat]
    exact (step (e.changeAll cs) c).named ih

end Run

section Interleaving

/-- Two entities of one kind that are the same at a target. -/
structure Agree (t : Option String) (e f : Entity) : Prop where
  kind_eq : e.kind = f.kind
  id_eq : t = none → e.id = f.id
  get?_eq : ∀ name, t = some name → e.get? name = f.get? name

theorem Agree.refl (t : Option String) (e : Entity) : Agree t e e :=
  ⟨rfl, fun _ => rfl, fun _ _ => rfl⟩

theorem Agree.symm (h : Agree t e f) : Agree t f e :=
  ⟨h.kind_eq.symm, fun ht => (h.id_eq ht).symm, fun name ht => (h.get?_eq name ht).symm⟩

theorem Agree.trans {g : Entity} (h : Agree t e f) (h' : Agree t f g) : Agree t e g :=
  ⟨h.kind_eq.trans h'.kind_eq, fun ht => (h.id_eq ht).trans (h'.id_eq ht),
    fun name ht => (h.get?_eq name ht).trans (h'.get?_eq name ht)⟩

theorem declaration_congr (h : e.kind = f.kind) (name : String) :
    e.declaration name = f.declaration name := by
  rw [declaration, declaration, h]

/-- A change answers by its target alone. -/
theorem Agree.answer_eq (h : Agree c.target e f) : e.answer c = f.answer c := by
  cases c with
  | set name v =>
    simp only [answer, Entity.set, declaration_congr h.kind_eq]
    cases f.declaration name with
    | error err => rfl
    | ok a =>
      rw [Except.ok_bind, Except.ok_bind]
      cases v.validate a <;> rfl
  | unset name =>
    simp only [answer, Entity.unset, declaration_congr h.kind_eq, h.kind_eq, h.get?_eq name rfl]
    cases f.declaration name with
    | error err => rfl
    | ok a =>
      rw [Except.ok_bind, Except.ok_bind]
      cases a.required <;> rfl
  | setId id =>
    simp only [answer, Entity.setId, h.kind_eq]
    cases Id.validate f.kind id <;> rfl

theorem Passes.unique {kind : Kind} {p : String × Value} {w w' : Value}
    {report report' : List CaseDiagnostic} (h : Passes kind p w report)
    (h' : Passes kind p w' report') : w = w' := by
  obtain ⟨a, ha, hname, hv⟩ := h
  obtain ⟨b, hb, hname', hv'⟩ := h'
  have hsame : b = a :=
    List.inj_on_of_nodup_map kind.nodup_attributes hb ha (hname'.trans hname.symm)
  cases (hsame ▸ hv').symm.trans hv
  rfl

/-- A change leaves the same at its target wherever it found the same. -/
theorem Agree.change (h : Agree c.target e f) : Agree c.target (e.change c) (f.change c) := by
  have hstep := step e c
  have hstep' := step f c
  rw [h.answer_eq] at hstep
  generalize f.answer c = r at hstep hstep'
  generalize e.change c = e' at hstep ⊢
  generalize f.change c = f' at hstep' ⊢
  cases hstep with
  | refused c err =>
    cases hstep'
    exact h
  | @set name v w report hpass =>
    cases hstep' with
    | @set _ _ w' _ hpass' =>
      refine ⟨h.kind_eq, fun ht => absurd ht (Option.some_ne_none _), fun other hother => ?_⟩
      obtain rfl := Option.some_inj.mp hother
      rw [h.kind_eq] at hpass
      rw [get?_put_self, get?_put_self, hpass.unique hpass']
  | unset ha hname hrequired hold =>
    cases hstep'
    refine ⟨h.kind_eq, fun ht => absurd ht (Option.some_ne_none _), fun other hother => ?_⟩
    obtain rfl := Option.some_inj.mp hother
    rw [get?, get?, Assoc.find?_erase_self, Assoc.find?_erase_self]
  | setId hid =>
    cases hstep'
    exact ⟨h.kind_eq, fun _ => rfl, fun _ ht => absurd ht.symm (Option.some_ne_none _)⟩

theorem agree_change_of_ne (hne : c.target ≠ t) (e : Entity) : Agree t e (e.change c) := by
  have hstep := step e c
  generalize e.answer c = r at hstep
  generalize e.change c = f at hstep ⊢
  cases hstep with
  | refused c err => exact .refl t e
  | set hpass =>
    refine ⟨rfl, fun _ => rfl, fun other hother => (get?_put_of_ne e ?_ _).symm⟩
    rintro rfl
    exact hne hother.symm
  | unset ha hname hrequired hold =>
    refine ⟨rfl, fun _ => rfl, fun other hother => (Assoc.find?_erase_of_ne ?_ _).symm⟩
    rintro rfl
    exact hne hother.symm
  | setId hid => exact ⟨rfl, fun ht => absurd ht.symm hne, fun _ _ => rfl⟩

/-- Calls on a target answer as if no others were made. -/
theorem Agree.transcript_filter (h : Agree t e f) (cs : List Change) :
    (e.transcript cs).filter (fun call => call.1.target = t) =
      f.transcript (cs.filter fun c => c.target = t) := by
  induction cs generalizing e f with
  | nil => rfl
  | cons c cs ih =>
    rw [transcript]
    by_cases hc : c.target = t
    · subst hc
      rw [List.filter_cons_of_pos (by simp), List.filter_cons_of_pos (by simp), transcript,
        h.answer_eq, ih h.change]
    · rw [List.filter_cons_of_neg (by simpa using hc), List.filter_cons_of_neg (by simpa using hc),
        ih ((agree_change_of_ne hc e).symm.trans h)]

/-- Changes leave the same at a target as if no others were made. -/
theorem Agree.changeAll_filter (h : Agree t e f) (cs : List Change) :
    Agree t (e.changeAll cs) (f.changeAll (cs.filter fun c => c.target = t)) := by
  induction cs generalizing e f with
  | nil => exact h
  | cons c cs ih =>
    by_cases hc : c.target = t
    · subst hc
      rw [List.filter_cons_of_pos (by simp)]
      exact ih h.change
    · rw [List.filter_cons_of_neg (by simpa using hc)]
      exact ih ((agree_change_of_ne hc e).symm.trans h)

theorem ext_of_agree (he : Assoc.Sorted e.attributes) (hf : Assoc.Sorted f.attributes)
    (h : ∀ t, Agree t e f) : e = f := by
  have hattributes : e.attributes = f.attributes :=
    he.ext hf fun name => (h (some name)).get?_eq name rfl
  cases e
  cases f
  simp only [mk.injEq]
  exact ⟨(h none).id_eq rfl, (h none).kind_eq, hattributes⟩

end Interleaving

/-- After whatever calls, refused ones included, the id and each attribute are what the last
successful call on them left, and so as at the start where there was none. A call that is refused
has written nothing. Calls that keep their order on each target may be interleaved at will: the
entity is the same at the end, and each call has the same answer. -/
theorem Reachable.history (he : e.Reachable) (cs : List Change) :
    (∀ c err, (e.changeAll cs).answer c = .error err →
      (e.changeAll cs).change c = e.changeAll cs ∧
        c.inPlace.run (e.changeAll cs) = .error err (e.changeAll cs)) ∧
    (∀ c r, (e.changeAll cs).answer c = .ok r →
      c.inPlace.run (e.changeAll cs) = .ok r ((e.changeAll cs).change c)) ∧
    (e.changeAll cs).kind = e.kind ∧
    Named e.id (lastDone? none (e.transcript cs)) (e.changeAll cs).id ∧
    (∀ name, Stands e.kind name (e.get? name) (lastDone? (some name) (e.transcript cs))
      ((e.changeAll cs).get? name)) ∧
    ∀ cs', (∀ t, (cs'.filter fun c => c.target = t) = cs.filter fun c => c.target = t) →
      e.changeAll cs' = e.changeAll cs ∧
      ∀ t, ((e.transcript cs').filter fun call => call.1.target = t) =
        (e.transcript cs).filter fun call => call.1.target = t := by
  refine ⟨fun c err h => ⟨?_, ?_⟩, fun c r h => ?_, kind_changeAll e cs, named_changeAll e cs,
    stands_changeAll e cs, fun cs' horder => ⟨?_, fun t => ?_⟩⟩
  · have hstep := step (e.changeAll cs) c
    rw [h] at hstep
    generalize (e.changeAll cs).change c = f at hstep ⊢
    cases hstep
    rfl
  · rw [run_inPlace, h]
  · rw [run_inPlace, h]
  · have hsorted (ds : List Change) : Assoc.Sorted (e.changeAll ds).attributes :=
      (he.wellFormed.changeAll ds).sorted
    refine ext_of_agree (hsorted cs') (hsorted cs) fun t => ?_
    have hleft := (Agree.refl t e).changeAll_filter cs'
    rw [horder t] at hleft
    exact hleft.trans ((Agree.refl t e).changeAll_filter cs).symm
  · rw [(Agree.refl t e).transcript_filter, (Agree.refl t e).transcript_filter, horder t]

/-- Calls on an edge, of which the second, the fifth and the last two are refused. -/
def braidedCalls : List Change := [
  .set "privileges" (.list [.str "write"]), .setId "7", .unset "privileges",
  .set "relationship_type" (.string "PROVIDES"), .set "relationship_type" (.integer 1),
  .setId "relationship--46545b7a-1840-4e34-a26f-aef5eb954b25", .unset "object_id",
  .set "privileges" (.list [.int 1])]

/-- The same calls, those on each target together. -/
def partedCalls : List Change := [
  .unset "object_id", .setId "7", .setId "relationship--46545b7a-1840-4e34-a26f-aef5eb954b25",
  .set "relationship_type" (.string "PROVIDES"), .set "relationship_type" (.integer 1),
  .set "privileges" (.list [.str "write"]), .unset "privileges",
  .set "privileges" (.list [.int 1])]

theorem filter_partedCalls (t : Option String) :
    (partedCalls.filter fun c => c.target = t) = braidedCalls.filter fun c => c.target = t := by
  by_cases hid : t = none
  · subst hid
    rfl
  by_cases hprivileges : t = some "privileges"
  · subst hprivileges
    rfl
  by_cases htype : t = some "relationship_type"
  · subst htype
    rfl
  by_cases hobject : t = some "object_id"
  · subst hobject
    rfl
  simp [partedCalls, braidedCalls, Change.target, Ne.symm hid, Ne.symm hprivileges, Ne.symm htype,
    Ne.symm hobject]

theorem history_braidedCalls :
    ∃ e ds, construct .relationship none "6e2f0f2d-bd49-4ed5-b3ab-4e5d8c1a1c05" edge =
        .ok (e, ds) ∧
      (e.changeAll braidedCalls).get? "privileges" = none ∧
      (e.changeAll braidedCalls).get? "relationship_type" = some (.string "PROVIDES") ∧
      (e.changeAll braidedCalls).get? "object_id" = e.get? "object_id" ∧
      (e.changeAll braidedCalls).id = "relationship--46545b7a-1840-4e34-a26f-aef5eb954b25" ∧
      e.changeAll partedCalls = e.changeAll braidedCalls ∧
      ((e.transcript partedCalls).filter fun call => call.1.target = some "privileges") =
        (e.transcript braidedCalls).filter fun call => call.1.target = some "privileges" := by
  obtain ⟨e, ds, h, hid, hprivileges, htype, hobject⟩ : ∃ e ds,
      construct .relationship none "6e2f0f2d-bd49-4ed5-b3ab-4e5d8c1a1c05" edge = .ok (e, ds) ∧
      lastDone? none (e.transcript braidedCalls) =
        some (.setId "relationship--46545b7a-1840-4e34-a26f-aef5eb954b25") ∧
      lastDone? (some "privileges") (e.transcript braidedCalls) = some (.unset "privileges") ∧
      lastDone? (some "relationship_type") (e.transcript braidedCalls) =
        some (.set "relationship_type" (.string "PROVIDES")) ∧
      lastDone? (some "object_id") (e.transcript braidedCalls) = none :=
    ⟨_, _, rfl, rfl, rfl, rfl, rfl⟩
  have hreachable : e.Reachable := .construct (fun _ => by decide) h
  obtain ⟨-, -, -, hnamed, hstands, horder⟩ := hreachable.history braidedCalls
  obtain ⟨hsame, hanswers⟩ := horder partedCalls filter_partedCalls
  have hgone := hstands "privileges"
  have hset := hstands "relationship_type"
  have hkept := hstands "object_id"
  rw [hprivileges] at hgone
  rw [htype] at hset
  rw [hobject] at hkept
  rw [hid] at hnamed
  refine ⟨e, ds, h, ?_⟩
  generalize (e.changeAll braidedCalls).get? "privileges" = privileges at hgone ⊢
  generalize (e.changeAll braidedCalls).get? "relationship_type" = type at hset ⊢
  generalize (e.changeAll braidedCalls).get? "object_id" = object at hkept ⊢
  generalize (e.changeAll braidedCalls).id = id at hnamed ⊢
  cases hgone
  cases hset with
  | @set v w report hpass =>
    have hprovides : Passes .relationship ("relationship_type", .string "PROVIDES")
        (.string "PROVIDES") [⟨.relationshipType, "PROVIDES", "Provides"⟩] :=
      ⟨⟨"relationship_type", .option .relationshipType, true⟩, by decide, rfl, rfl⟩
    rw [kind_construct h] at hpass
    cases hkept
    cases hnamed
    exact ⟨rfl, congrArg some (hpass.unique hprovides), rfl, rfl, hsame,
      hanswers (some "privileges")⟩

end EntityStore.Entity
