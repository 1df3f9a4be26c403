import EntityStore.Proofs.Entity.Diagnostics

/-! Construction from a list of pairs: which lists it takes, what it makes of them, what it refuses
the others for, and that the order of different names is of no account. -/
namespace EntityStore.Entity

/-- An entity with one more attribute, which takes the place of an old one of its name. -/
def put (e : Entity) (name : String) (w : Value) : Entity :=
  { e with attributes := Assoc.insert name w e.attributes }

/-- A pair that passes its check: the kind declares its name, and the declaration admits its value,
which is stored as another one and may have diagnostics. -/
def Passes (kind : Kind) (p : String × Value) (w : Value) (ds : List CaseDiagnostic) : Prop :=
  ∃ a ∈ kind.attributes, a.name = p.1 ∧ p.2.validate a = .ok (w, ds)

/-- Why a pair fails its check. -/
inductive Fails (kind : Kind) (p : String × Value) : ValidationError → Prop
  | reserved (hname : p.1 = idField ∨ p.1 = kindField) : Fails kind p (.reserved p.1)
  | unknown (hname : ¬ (p.1 = idField ∨ p.1 = kindField))
      (hnone : ∀ a ∈ kind.attributes, a.name ≠ p.1) :
      Fails kind p (.unknownAttribute kind p.1)
  | value {a : Attribute} (ha : a ∈ kind.attributes) (hname : a.name = p.1) {err : ValidationError}
      (hvalue : p.2.validate a = .error err) : Fails kind p err

/-- What an entity is built from: an id of its kind where one is given, pairs that all pass, also
those that later ones override, and all that the kind requires. -/
structure Acceptable (kind : Kind) (id : Option String) (pairs : List (String × Value)) : Prop where
  id_valid : ∀ given ∈ id, Id.validate kind given = .ok ()
  passes : ∀ p ∈ pairs, ∃ w ds, Passes kind p w ds
  complete : ∀ a ∈ kind.attributes, a.required = true → a.name ∈ pairs.map Prod.fst

/-- What is built from pairs: an entity with the last value of each name as it is stored, and the
diagnostics of all pairs in turn. -/
structure Built (kind : Kind) (id : String) (pairs : List (String × Value)) (e : Entity)
    (ds : List CaseDiagnostic) : Prop where
  kind_eq : e.kind = kind
  id_eq : e.id = id
  sorted : Assoc.Sorted e.attributes
  last : ∀ before p after, pairs = before ++ p :: after → p.1 ∉ after.map Prod.fst →
    ∃ w report, Passes kind p w report ∧ e.get? p.1 = some w
  absent : ∀ name ∉ pairs.map Prod.fst, e.get? name = none
  diagnostics : ∃ reports,
    List.Forall₂ (fun p report => ∃ w, Passes kind p w report) pairs reports ∧
      ds = reports.flatten

/-- Why nothing is built: the id, then the first pair that fails, then the first required attribute
that no pair names. -/
inductive Refused (kind : Kind) (id : Option String) (pairs : List (String × Value)) :
    ValidationError → Prop
  | id {given : String} (hgiven : given ∈ id) {err : ValidationError}
      (hid : Id.validate kind given = .error err) : Refused kind id pairs err
  | pair (hid : ∀ given ∈ id, Id.validate kind given = .ok ())
      {before after : List (String × Value)} {p : String × Value}
      (hpairs : pairs = before ++ p :: after) (hbefore : ∀ q ∈ before, ∃ w ds, Passes kind q w ds)
      {err : ValidationError} (hp : Fails kind p err) : Refused kind id pairs err
  | missing (hid : ∀ given ∈ id, Id.validate kind given = .ok ())
      (hpass : ∀ p ∈ pairs, ∃ w ds, Passes kind p w ds)
      {before after : List Attribute} {a : Attribute}
      (hattributes : kind.attributes = before ++ a :: after)
      (hbefore : ∀ b ∈ before, b.required = true → b.name ∈ pairs.map Prod.fst)
      (hrequired : a.required = true) (hmissing : a.name ∉ pairs.map Prod.fst) :
      Refused kind id pairs (.missingAttribute kind a.name)

/-- The same pairs in another order, where pairs of one name keep theirs. -/
inductive Reordered : List (String × Value) → List (String × Value) → Prop
  | nil : Reordered [] []
  | cons (p : String × Value) {ps qs : List (String × Value)} (h : Reordered ps qs) :
      Reordered (p :: ps) (p :: qs)
  | swap {p q : String × Value} (hne : p.1 ≠ q.1) (ps : List (String × Value)) :
      Reordered (p :: q :: ps) (q :: p :: ps)
  | trans {ps qs rs : List (String × Value)} (h : Reordered ps qs) (h' : Reordered qs rs) :
      Reordered ps rs

variable {e f : Entity} {kind : Kind} {id : Option String} {uuid name : String} {v : Value}
  {p : String × Value} {ps qs : List (String × Value)} {ds : List CaseDiagnostic}
  {err : ValidationError}

section Put

@[simp] theorem kind_put (e : Entity) (name : String) (w : Value) : (e.put name w).kind = e.kind :=
  rfl

@[simp] theorem id_put (e : Entity) (name : String) (w : Value) : (e.put name w).id = e.id := rfl

theorem get?_put_self (e : Entity) (name : String) (w : Value) :
    (e.put name w).get? name = some w := Assoc.find?_insert_self name w e.attributes

theorem get?_put_of_ne (e : Entity) {other : String} (h : name ≠ other) (w : Value) :
    (e.put other w).get? name = e.get? name := Assoc.find?_insert_of_ne h w e.attributes

end Put

section Set

theorem declaration_eq_ok_iff_mem {a : Attribute} :
    e.declaration name = .ok a ↔ a ∈ e.kind.attributes ∧ a.name = name := by
  rw [declaration_eq_ok_iff, Kind.attribute?_eq_some_iff]
  constructor
  · exact fun h => h.2.2
  · rintro ⟨ha, rfl⟩
    exact ⟨Kind.ne_idField_of_mem_attributes ha, Kind.ne_kindField_of_mem_attributes ha, ha, rfl⟩

theorem set_eq_ok_iff_passes : e.set p.1 p.2 = .ok (f, ds) ↔
    ∃ w, Passes e.kind p w ds ∧ f = e.put p.1 w := by
  simp only [set_eq_ok_iff, declaration_eq_ok_iff_mem, Passes]
  constructor
  · rintro ⟨a, w, ⟨ha, hname⟩, hv, hf⟩
    exact ⟨w, ⟨a, ha, hname, hv⟩, hf⟩
  · rintro ⟨w, ⟨a, ha, hname, hv⟩, hf⟩
    exact ⟨a, w, ⟨ha, hname⟩, hv, hf⟩

theorem Fails.set_eq_error (h : Fails e.kind p err) : e.set p.1 p.2 = .error err := by
  cases h with
  | reserved hname => simp only [set, declaration, if_pos hname, Except.error_bind]
  | unknown hname hnone =>
    have hfound : e.kind.attribute? p.1 = none := by
      cases ha : e.kind.attribute? p.1 with
      | none => rfl
      | some a =>
        obtain ⟨hmem, heq⟩ := Kind.attribute?_eq_some_iff.mp ha
        exact absurd heq (hnone a hmem)
    simp only [set, declaration, if_neg hname, hfound, Except.error_bind]
  | value ha hname hvalue =>
    have hdecl := declaration_eq_ok_iff_mem.mpr ⟨ha, hname⟩
    simp only [set, hdecl, hvalue, Except.ok_bind, Except.error_bind]

theorem passes_or_fails (kind : Kind) (p : String × Value) :
    (∃ w ds, Passes kind p w ds) ∨ ∃ err, Fails kind p err := by
  by_cases hname : p.1 = idField ∨ p.1 = kindField
  · exact .inr ⟨_, .reserved hname⟩
  by_cases hnone : ∀ a ∈ kind.attributes, a.name ≠ p.1
  · exact .inr ⟨_, .unknown hname hnone⟩
  push Not at hnone
  obtain ⟨a, ha, hname⟩ := hnone
  cases hvalue : p.2.validate a with
  | ok out => exact .inl ⟨out.1, out.2, a, ha, hname, hvalue⟩
  | error err => exact .inr ⟨err, .value ha hname hvalue⟩

/-- Pairs all pass, or there is a first one that fails. -/
theorem pass_or_fail (kind : Kind) (ps : List (String × Value)) :
    (∀ p ∈ ps, ∃ w ds, Passes kind p w ds) ∨ ∃ before p after err, ps = before ++ p :: after ∧
      (∀ q ∈ before, ∃ w ds, Passes kind q w ds) ∧ Fails kind p err := by
  induction ps with
  | nil => exact .inl (List.forall_mem_nil _)
  | cons p ps ih =>
    obtain hpass | ⟨err, hfail⟩ := passes_or_fails kind p
    · obtain hall | ⟨before, q, after, err, rfl, hbefore, hfail⟩ := ih
      · exact .inl (List.forall_mem_cons.mpr ⟨hpass, hall⟩)
      · exact .inr ⟨p :: before, q, after, err, rfl,
          List.forall_mem_cons.mpr ⟨hpass, hbefore⟩, hfail⟩
    · exact .inr ⟨[], p, ps, err, rfl, List.forall_mem_nil _, hfail⟩

end Set

section SetAll

/-- Pairs are set in turn: the first one, if it passes, and then the others. -/
theorem setAll_cons_eq_ok_iff : e.setAll (p :: ps) = .ok (f, ds) ↔ ∃ w report more,
    Passes e.kind p w report ∧ (e.put p.1 w).setAll ps = .ok (f, more) ∧ ds = report ++ more := by
  rw [setAll, Except.bind_eq_ok_iff]
  constructor
  · rintro ⟨⟨g, report⟩, hset, h⟩
    obtain ⟨⟨f', more⟩, hrest, hout⟩ := Except.bind_eq_ok_iff.mp h
    cases hout
    obtain ⟨w, hpass, rfl⟩ := set_eq_ok_iff_passes.mp hset
    exact ⟨w, report, more, hpass, hrest, rfl⟩
  · rintro ⟨w, report, more, hpass, hrest, rfl⟩
    refine ⟨_, set_eq_ok_iff_passes.mpr ⟨w, hpass, rfl⟩, ?_⟩
    dsimp only
    rw [hrest]
    rfl

theorem exists_setAll (h : ∀ p ∈ ps, ∃ w ds, Passes e.kind p w ds) :
    ∃ f ds, e.setAll ps = .ok (f, ds) := by
  induction ps generalizing e with
  | nil => exact ⟨e, [], rfl⟩
  | cons p ps ih =>
    obtain ⟨⟨w, report, hpass⟩, hrest⟩ := List.forall_mem_cons.mp h
    obtain ⟨f, more, hmore⟩ := ih (e := e.put p.1 w) hrest
    exact ⟨f, report ++ more, setAll_cons_eq_ok_iff.mpr ⟨w, report, more, hpass, hmore, rfl⟩⟩

/-- The first pair that fails is what setting fails for. -/
theorem Fails.setAll_eq_error (h : Fails e.kind p err)
    (hbefore : ∀ q ∈ ps, ∃ w ds, Passes e.kind q w ds) (qs : List (String × Value)) :
    e.setAll (ps ++ p :: qs) = .error err := by
  induction ps generalizing e with
  | nil =>
    rw [List.nil_append, setAll, h.set_eq_error]
    rfl
  | cons q ps ih =>
    obtain ⟨⟨w, report, hpass⟩, hrest⟩ := List.forall_mem_cons.mp hbefore
    rw [List.cons_append, setAll, set_eq_ok_iff_passes.mpr ⟨w, hpass, rfl⟩, Except.ok_bind]
    dsimp only
    rw [ih (e := e.put q.1 w) h hrest]
    rfl

theorem id_setAll (h : e.setAll ps = .ok (f, ds)) : f.id = e.id := by
  induction ps generalizing e ds with
  | nil =>
    cases h
    rfl
  | cons p ps ih =>
    obtain ⟨w, report, more, -, hrest, rfl⟩ := setAll_cons_eq_ok_iff.mp h
    rw [ih hrest, id_put]

theorem sorted_setAll (he : Assoc.Sorted e.attributes) (h : e.setAll ps = .ok (f, ds)) :
    Assoc.Sorted f.attributes := by
  induction ps generalizing e ds with
  | nil =>
    cases h
    exact he
  | cons p ps ih =>
    obtain ⟨w, report, more, -, hrest, rfl⟩ := setAll_cons_eq_ok_iff.mp h
    exact ih (he.insert p.1 w) hrest

/-- What no pair names stays as it was. -/
theorem get?_setAll_of_notMem (h : e.setAll ps = .ok (f, ds)) (hname : name ∉ ps.map Prod.fst) :
    f.get? name = e.get? name := by
  induction ps generalizing e ds with
  | nil =>
    cases h
    rfl
  | cons p ps ih =>
    obtain ⟨w, report, more, -, hrest, rfl⟩ := setAll_cons_eq_ok_iff.mp h
    rw [List.map_cons, List.mem_cons, not_or] at hname
    rw [ih hrest hname.2, get?_put_of_ne e hname.1]

/-- The last pair of a name decides its value. -/
theorem get?_setAll_last (h : e.setAll (ps ++ p :: qs) = .ok (f, ds))
    (hlast : p.1 ∉ qs.map Prod.fst) :
    ∃ w report, Passes e.kind p w report ∧ f.get? p.1 = some w := by
  induction ps generalizing e ds with
  | nil =>
    obtain ⟨w, report, more, hpass, hrest, rfl⟩ := setAll_cons_eq_ok_iff.mp h
    refine ⟨w, report, hpass, ?_⟩
    rw [get?_setAll_of_notMem hrest hlast, get?_put_self]
  | cons q ps ih =>
    obtain ⟨w, report, more, -, hrest, rfl⟩ := setAll_cons_eq_ok_iff.mp h
    exact ih (e := e.put q.1 w) hrest

theorem reports_setAll (h : e.setAll ps = .ok (f, ds)) :
    ∃ reports, List.Forall₂ (fun p report => ∃ w, Passes e.kind p w report) ps reports ∧
      ds = reports.flatten := by
  induction ps generalizing e ds with
  | nil =>
    cases h
    exact ⟨[], .nil, rfl⟩
  | cons p ps ih =>
    obtain ⟨w, report, more, hpass, hrest, rfl⟩ := setAll_cons_eq_ok_iff.mp h
    obtain ⟨reports, hreports, rfl⟩ := ih hrest
    exact ⟨report :: reports, .cons ⟨w, hpass⟩ hreports, rfl⟩

/-- What is set at the end is what was set before, and what pairs name. -/
theorem contains_setAll_iff (h : e.setAll ps = .ok (f, ds)) :
    f.contains name = true ↔ name ∈ ps.map Prod.fst ∨ e.contains name = true := by
  induction ps generalizing e ds with
  | nil =>
    cases h
    simp
  | cons p ps ih =>
    obtain ⟨w, report, more, -, hrest, rfl⟩ := setAll_cons_eq_ok_iff.mp h
    rw [ih hrest, List.map_cons, List.mem_cons]
    by_cases hname : name = p.1
    · have hput : (e.put p.1 w).contains name = true := by
        rw [hname, contains, get?_put_self]
        rfl
      exact iff_of_true (.inr hput) (.inl (.inl hname))
    · have hput : (e.put p.1 w).contains name = e.contains name := by
        rw [contains, contains, get?_put_of_ne e hname]
      rw [hput, or_iff_right hname]

end SetAll

section Order

theorem Reordered.symm (h : Reordered ps qs) : Reordered qs ps := by
  induction h with
  | nil => exact .nil
  | cons p _ ih => exact .cons p ih
  | swap hne ps => exact .swap hne.symm ps
  | trans _ _ ih ih' => exact .trans ih' ih

/-- Pairs of different names may stand in any order. -/
theorem reordered_of_perm (h : ps.Perm qs) (hnodup : (ps.map Prod.fst).Nodup) :
    Reordered ps qs := by
  induction h with
  | nil => exact .nil
  | cons p _ ih => exact .cons p (ih (List.nodup_cons.mp hnodup).2)
  | swap p q ps =>
    have hne : q.1 ≠ p.1 := by
      intro heq
      exact (List.nodup_cons.mp hnodup).1 (heq ▸ List.mem_cons_self)
    exact .swap hne ps
  | trans hperm _ ih ih' =>
    exact (ih hnodup).trans (ih' ((hperm.map Prod.fst).nodup_iff.mp hnodup))

theorem put_put_of_ne (he : Assoc.Sorted e.attributes) {j k : String} (hne : j ≠ k) (v w : Value) :
    (e.put j v).put k w = (e.put k w).put j v := by
  rw [put, put, put, put, he.insert_comm hne]

/-- Two neighbours of different names may change places. -/
theorem setAll_swap (he : Assoc.Sorted e.attributes) {q : String × Value} (hne : p.1 ≠ q.1)
    (h : e.setAll (p :: q :: ps) = .ok (f, ds)) : ∃ ds, e.setAll (q :: p :: ps) = .ok (f, ds) := by
  obtain ⟨w, report, more, hp, h, -⟩ := setAll_cons_eq_ok_iff.mp h
  obtain ⟨w', report', more', hq, h, -⟩ := setAll_cons_eq_ok_iff.mp h
  rw [put_put_of_ne he hne] at h
  exact ⟨_, setAll_cons_eq_ok_iff.mpr ⟨w', report', _, hq,
    setAll_cons_eq_ok_iff.mpr ⟨w, report, more', hp, h, rfl⟩, rfl⟩⟩

theorem Reordered.setAll (h : Reordered ps qs) (he : Assoc.Sorted e.attributes)
    (hset : e.setAll ps = .ok (f, ds)) : ∃ ds, e.setAll qs = .ok (f, ds) := by
  induction h generalizing e ds with
  | nil => exact ⟨ds, hset⟩
  | cons p _ ih =>
    obtain ⟨w, report, more, hp, hrest, -⟩ := setAll_cons_eq_ok_iff.mp hset
    obtain ⟨more', hmore⟩ := ih (he.insert p.1 w) hrest
    exact ⟨_, setAll_cons_eq_ok_iff.mpr ⟨w, report, more', hp, hmore, rfl⟩⟩
  | swap hne ps => exact setAll_swap he hne hset
  | trans _ _ ih ih' =>
    obtain ⟨ds', hset'⟩ := ih he hset
    exact ih' he hset'

end Order

section Construct

/-- With an id that is fine, or none, pairs are set in turn. -/
theorem construct_of_id (hid : ∀ given ∈ id, Id.validate kind given = .ok ()) :
    construct kind id uuid ps = do
      let (e, ds) ← setAll ⟨id.getD (Id.ofUuid kind uuid), kind, []⟩ ps
      match e.missing? with
      | some a => throw (.missingAttribute kind a.name)
      | none => return (e, ds) := by
  cases id with
  | none => rfl
  | some given =>
    rw [construct]
    dsimp only
    rw [hid given rfl]
    rfl

theorem contains_of_setAll {start : String} (hset : setAll ⟨start, kind, []⟩ ps = .ok (e, ds)) :
    e.contains name = true ↔ name ∈ ps.map Prod.fst := by
  rw [contains_setAll_iff hset, or_iff_left]
  exact Bool.false_ne_true

theorem Built.of_setAll {start : String} (hset : setAll ⟨start, kind, []⟩ ps = .ok (e, ds)) :
    Built kind start ps e ds where
  kind_eq := kind_setAll hset
  id_eq := id_setAll hset
  sorted := sorted_setAll (e := ⟨start, kind, []⟩) .nil hset
  last _ _ _ hps hlast := get?_setAll_last (hps ▸ hset) hlast
  absent _ hname := get?_setAll_of_notMem hset hname
  diagnostics := reports_setAll hset

/-- An acceptable list is built. -/
theorem Acceptable.exists_construct (h : Acceptable kind id ps) (uuid : String) :
    ∃ e ds, construct kind id uuid ps = .ok (e, ds) := by
  obtain ⟨e, ds, hset⟩ :=
    exists_setAll (e := ⟨id.getD (Id.ofUuid kind uuid), kind, []⟩) h.passes
  have hcomplete : e.missing? = none := by
    rw [missing?_eq_none_iff, kind_setAll hset]
    exact fun a ha hrequired => (contains_of_setAll hset).mpr (h.complete a ha hrequired)
  refine ⟨e, ds, ?_⟩
  rw [construct_of_id h.id_valid, hset, Except.ok_bind]
  dsimp only
  rw [hcomplete]
  rfl

/-- The first required attribute that no pair names is the first that the entity lacks. -/
theorem missing?_eq_some {start : String} (hset : setAll ⟨start, kind, []⟩ ps = .ok (e, ds))
    {before after : List Attribute} {a : Attribute}
    (hattributes : kind.attributes = before ++ a :: after)
    (hbefore : ∀ b ∈ before, b.required = true → b.name ∈ ps.map Prod.fst)
    (hrequired : a.required = true) (hmissing : a.name ∉ ps.map Prod.fst) :
    e.missing? = some a := by
  rw [missing?, kind_setAll hset, List.find?_eq_some_iff_append]
  refine ⟨?_, before, after, hattributes, fun b hb => ?_⟩
  · simp [hrequired, ← Bool.not_eq_true, contains_of_setAll hset, hmissing]
  · cases hb' : b.required with
    | false => rfl
    | true => simp [(contains_of_setAll hset).mpr (hbefore b hb hb')]

/-- A list that is refused fails for the first check that it fails. -/
theorem Refused.construct_eq_error (h : Refused kind id ps err) (uuid : String) :
    construct kind id uuid ps = .error err := by
  cases h with
  | id hgiven hid =>
    rw [Option.mem_def.mp hgiven, construct]
    dsimp only
    rw [hid]
    rfl
  | pair hid hpairs hbefore hp =>
    have hset := Fails.setAll_eq_error (e := ⟨id.getD (Id.ofUuid kind uuid), kind, []⟩) hp hbefore
    rw [construct_of_id hid, hpairs, hset]
    rfl
  | missing hid hpass hattributes hbefore hrequired hmissing =>
    obtain ⟨e, ds, hset⟩ := exists_setAll (e := ⟨id.getD (Id.ofUuid kind uuid), kind, []⟩) hpass
    rw [construct_of_id hid, hset, Except.ok_bind]
    dsimp only
    rw [missing?_eq_some hset hattributes hbefore hrequired hmissing]
    rfl

theorem exists_first_missing {ps : List (String × Value)} {attributes : List Attribute}
    (h : ¬ ∀ a ∈ attributes, a.required = true → a.name ∈ ps.map Prod.fst) :
    ∃ before a after, attributes = before ++ a :: after ∧
      (∀ b ∈ before, b.required = true → b.name ∈ ps.map Prod.fst) ∧ a.required = true ∧
        a.name ∉ ps.map Prod.fst := by
  induction attributes with
  | nil => exact absurd (List.forall_mem_nil _) h
  | cons a rest ih =>
    by_cases ha : a.required = true → a.name ∈ ps.map Prod.fst
    · obtain ⟨before, b, after, rfl, hbefore, hb⟩ :=
        ih fun hrest => h (List.forall_mem_cons.mpr ⟨ha, hrest⟩)
      exact ⟨a :: before, b, after, rfl, List.forall_mem_cons.mpr ⟨ha, hbefore⟩, hb⟩
    · push Not at ha
      exact ⟨[], a, rest, rfl, List.forall_mem_nil _, ha⟩

theorem acceptable_or_refused (kind : Kind) (id : Option String) (ps : List (String × Value)) :
    Acceptable kind id ps ∨ ∃ err, Refused kind id ps err := by
  by_cases hid : ∀ given ∈ id, Id.validate kind given = .ok ()
  · obtain hpass | ⟨before, p, after, err, hpairs, hbefore, hfail⟩ := pass_or_fail kind ps
    · by_cases hcomplete : ∀ a ∈ kind.attributes, a.required = true → a.name ∈ ps.map Prod.fst
      · exact .inl ⟨hid, hpass, hcomplete⟩
      · obtain ⟨before, a, after, hattributes, hbefore, hrequired, hmissing⟩ :=
          exists_first_missing hcomplete
        exact .inr ⟨_, .missing hid hpass hattributes hbefore hrequired hmissing⟩
    · exact .inr ⟨err, .pair hid hpairs hbefore hfail⟩
  · push Not at hid
    obtain ⟨given, hgiven, hid⟩ := hid
    cases hvalid : Id.validate kind given with
    | ok => exact absurd hvalid hid
    | error err => exact .inr ⟨err, .id hgiven hvalid⟩

theorem Reordered.construct (h : Reordered ps qs)
    (hps : construct kind id uuid ps = .ok (e, ds)) :
    ∃ ds, construct kind id uuid qs = .ok (e, ds) := by
  obtain ⟨hid, hset, hcomplete⟩ := construct_eq_ok_iff.mp hps
  obtain ⟨ds', hset'⟩ := h.setAll (e := ⟨id.getD (Id.ofUuid kind uuid), kind, []⟩) .nil hset
  exact ⟨ds', construct_eq_ok_iff.mpr ⟨hid, hset', hcomplete⟩⟩

/-- Construction takes exactly the acceptable lists and builds the last value of each name; what it
refuses fails for the first check, of the id, then of the pairs in turn, then of what is required.
Where pairs of different names stand among each other is of no account. -/
theorem construct_checks_in_order (kind : Kind) (id : Option String) (uuid : String)
    (ps : List (String × Value)) :
    ((∃ e ds, construct kind id uuid ps = .ok (e, ds)) ↔ Acceptable kind id ps) ∧
    (∀ e ds, construct kind id uuid ps = .ok (e, ds) →
      Built kind (id.getD (Id.ofUuid kind uuid)) ps e ds) ∧
    (∀ err, construct kind id uuid ps = .error err ↔ Refused kind id ps err) ∧
    (∀ qs, Reordered ps qs → ∀ e,
      (∃ ds, construct kind id uuid ps = .ok (e, ds)) ↔
        ∃ ds, construct kind id uuid qs = .ok (e, ds)) ∧
    ((ps.map Prod.fst).Nodup → ∀ qs, ps.Perm qs → ∀ e,
      (∃ ds, construct kind id uuid ps = .ok (e, ds)) ↔
        ∃ ds, construct kind id uuid qs = .ok (e, ds)) := by
  have hcases := acceptable_or_refused kind id ps
  have horder : ∀ qs, Reordered ps qs → ∀ e, (∃ ds, construct kind id uuid ps = .ok (e, ds)) ↔
      ∃ ds, construct kind id uuid qs = .ok (e, ds) :=
    fun qs h e => ⟨fun ⟨_, hps⟩ => h.construct hps, fun ⟨_, hqs⟩ => h.symm.construct hqs⟩
  refine ⟨⟨fun ⟨e, ds, h⟩ => ?_, fun h => h.exists_construct uuid⟩, fun e ds h => ?_,
    fun err => ⟨fun h => ?_, fun h => h.construct_eq_error uuid⟩, horder,
    fun hnodup qs h => horder qs (reordered_of_perm h hnodup)⟩
  · obtain haccept | ⟨err, hrefused⟩ := hcases
    · exact haccept
    · cases (hrefused.construct_eq_error uuid).symm.trans h
  · exact .of_setAll (construct_eq_ok_iff.mp h).2.1
  · obtain haccept | ⟨err', hrefused⟩ := hcases
    · obtain ⟨e, ds, hok⟩ := haccept.exists_construct uuid
      cases hok.symm.trans h
    · cases (hrefused.construct_eq_error uuid).symm.trans h
      exact hrefused

/-- An edge whose type is given twice, first in another letter case. -/
def rewiredEdge : List (String × Value) := [
  ("relationship_type", .string "contains"), ("subject_id", .string "a"),
  ("object_id", .string "b"), ("relationship_type", .string "Provides")]

/-- The same edge from its object on. -/
def turnedEdge : List (String × Value) := [
  ("object_id", .string "b"), ("relationship_type", .string "contains"),
  ("relationship_type", .string "Provides"), ("subject_id", .string "a")]

theorem reordered_turnedEdge : Reordered rewiredEdge turnedEdge := by
  have hobject : Reordered rewiredEdge [("object_id", .string "b"),
      ("relationship_type", .string "contains"), ("subject_id", .string "a"),
      ("relationship_type", .string "Provides")] :=
    .trans (.cons _ (.swap (by decide) _)) (.swap (by decide) _)
  exact hobject.trans (.cons _ (.cons _ (.swap (by decide) _)))

theorem construct_rewiredEdge :
    Acceptable .relationship none rewiredEdge ∧
    (∃ e ds, construct .relationship none "6e2f0f2d-bd49-4ed5-b3ab-4e5d8c1a1c05" rewiredEdge =
        .ok (e, ds) ∧
      Built .relationship "relationship--6e2f0f2d-bd49-4ed5-b3ab-4e5d8c1a1c05" rewiredEdge e ds ∧
      ds = [⟨.relationshipType, "contains", "Contains"⟩] ∧
      ∃ ds, construct .relationship none "6e2f0f2d-bd49-4ed5-b3ab-4e5d8c1a1c05" turnedEdge =
        .ok (e, ds)) ∧
    Refused .relationship none (rewiredEdge.drop 2) (.missingAttribute .relationship "subject_id")
    := by
  obtain ⟨e, ds, h, hds⟩ : ∃ e ds,
      construct .relationship none "6e2f0f2d-bd49-4ed5-b3ab-4e5d8c1a1c05" rewiredEdge =
        .ok (e, ds) ∧ ds = [⟨.relationshipType, "contains", "Contains"⟩] := ⟨_, _, rfl, rfl⟩
  obtain ⟨haccept, hbuilt, -, horder, -⟩ := construct_checks_in_order .relationship none
    "6e2f0f2d-bd49-4ed5-b3ab-4e5d8c1a1c05" rewiredEdge
  have hturned := (horder turnedEdge reordered_turnedEdge e).mp ⟨ds, h⟩
  have hrefused : construct .relationship none "6e2f0f2d-bd49-4ed5-b3ab-4e5d8c1a1c05"
      (rewiredEdge.drop 2) = .error (.missingAttribute .relationship "subject_id") := rfl
  exact ⟨haccept.mp ⟨e, ds, h⟩, ⟨e, ds, h, hbuilt e ds h, hds, hturned⟩,
    ((construct_checks_in_order .relationship none _ _).2.2.1 _).mp hrefused⟩

end Construct

end EntityStore.Entity
