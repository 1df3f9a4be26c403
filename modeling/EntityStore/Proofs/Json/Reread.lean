import EntityStore.Proofs.Json.RoundTrip

/-! Any JSON text that is written and can be read, also one with numbers that do not survive it: the
value that is read has the members of the one that was written, and is the same where this one is
regular and exact. -/
namespace EntityStore.Json

open Reader

variable {l : Layout} {depth : Nat} {r r' : Reader} {outer : List Open} {cs : List Char}
  {j j' y : Json} {xs ys : List Json} {ms ns : List (String × Json)}

/-- A value that is read from the text of another: the same, if this one is regular and exact. -/
def Rereads (j j' : Json) : Prop :=
  j.every isRegular = true → j.every isExact = true → j' = j

/-- Members that are read from the texts of others. -/
def MemberRereads (m n : String × Json) : Prop := n.1 = m.1 ∧ Rereads m.2 n.2

theorem Rereads.refl (j : Json) : Rereads j j := fun _ _ => rfl

theorem eq_of_forall₂_rereads (h : List.Forall₂ Rereads xs ys)
    (hregular : ∀ x ∈ xs, x.every isRegular = true) (hexact : ∀ x ∈ xs, x.every isExact = true) :
    ys = xs := by
  induction h with
  | nil => rfl
  | cons hxy _ ih =>
    obtain ⟨hx, hxs⟩ := List.forall_mem_cons.mp hregular
    obtain ⟨hx', hxs'⟩ := List.forall_mem_cons.mp hexact
    rw [hxy hx hx', ih hxs hxs']

theorem eq_of_forall₂_memberRereads (h : List.Forall₂ MemberRereads ms ns)
    (hregular : ∀ m ∈ ms, m.2.every isRegular = true)
    (hexact : ∀ m ∈ ms, m.2.every isExact = true) : ns = ms := by
  induction h with
  | nil => rfl
  | cons hmn _ ih =>
    obtain ⟨hm, hms⟩ := List.forall_mem_cons.mp hregular
    obtain ⟨hm', hms'⟩ := List.forall_mem_cons.mp hexact
    rw [ih hms hms', Prod.ext hmn.1 (hmn.2 hm hm')]

theorem Rereads.arr (h : List.Forall₂ Rereads xs ys) : Rereads (.arr xs) (.arr ys) := by
  intro hregular hexact
  rw [eq_of_forall₂_rereads h (every_arr_iff.mp hregular).2 (every_arr_iff.mp hexact).2]

theorem Rereads.obj (h : List.Forall₂ MemberRereads ms ns) :
    Rereads (.obj ms) (.ofMembers ns) := by
  intro hregular hexact
  obtain ⟨hsorted, hregular⟩ := every_obj_iff.mp hregular
  have hms : Assoc.Sorted ms := of_decide_eq_true hsorted
  rw [eq_of_forall₂_memberRereads h hregular (every_obj_iff.mp hexact).2, ofMembers, hms.ofList_eq]

/-- A reader that gets through the text of a value has read one from it. -/
structure Passed (l : Layout) (depth : Nat) (j : Json) : Prop where
  read : ∀ {r r' : Reader} {cs : List Char}, r.valueDue = true → r.token = .none → Ends cs →
    r.run (write l depth j ++ cs) = some r' →
      ∃ j', Rereads j j' ∧ run ⟨r.outer, .after j', .none⟩ cs = some r'

theorem passed_of_word (hne : write l depth j ≠ []) (hword : IsWord (write l depth j))
    (hv : ∀ v, word? (write l depth j) = some v → Rereads j v) : Passed l depth j := by
  refine ⟨fun hdue htoken hcs h => ?_⟩
  obtain ⟨c, hhead, hc⟩ := hcs
  obtain ⟨rest, rfl⟩ := List.head?_eq_some_iff.mp hhead
  rw [Reader.run_append, run_word hdue htoken hne hword, Option.bind_some, run_cons, step] at h
  simp only [hc, Bool.false_eq_true, if_false, takeWord, List.reverse_reverse] at h
  cases hread : word? (write l depth j) with
  | none =>
    rw [hread] at h
    cases h
  | some v =>
    rw [hread] at h
    exact ⟨v, hv v hread, h⟩

/-- Between its brackets a container is closed, so that what follows it does not matter. -/
theorem passed_of_closed (h : ∀ {r r₁ : Reader}, r.valueDue = true → r.token = .none →
    r.run (write l depth j) = some r₁ → ∃ j', Rereads j j' ∧ r₁ = ⟨r.outer, .after j', .none⟩) :
    Passed l depth j := by
  refine ⟨fun hdue htoken _ hrun => ?_⟩
  rw [Reader.run_append] at hrun
  obtain ⟨r₁, hr₁, hcs⟩ := Option.bind_eq_some_iff.mp hrun
  obtain ⟨j', hj', rfl⟩ := h hdue htoken hr₁
  exact ⟨j', hj', hcs⟩

/-- A text that is always read is one that is got through. -/
theorem passed_of_reads
    (h : ∀ r : Reader, r.valueDue = true → r.token = .none → Reads r (write l depth j) j) :
    Passed l depth j := by
  refine ⟨fun {r r' cs} hdue htoken hcs hrun => ?_⟩
  rw [(h r hdue htoken).run_append hcs] at hrun
  exact ⟨j, .refl j, hrun⟩

section Containers

theorem exists_run_items (hl : l.Blank) (hxs : ∀ x ∈ xs, Passed l depth x) {done : List Json}
    {e : Nat} (h : run ⟨.array done :: outer, .after y, .none⟩
      (writeItems l depth xs ++ (l.lineBreak e ++ [']'])) = some r') :
    ∃ ys, List.Forall₂ Rereads xs ys ∧
      r' = ⟨outer, .after (.arr (done.reverse ++ y :: ys)), .none⟩ := by
  induction xs generalizing done y with
  | nil =>
    have hclose : step ⟨.array done :: outer, .after y, .none⟩ ']' =
        some ⟨outer, .after (.arr (y :: done).reverse), .none⟩ := rfl
    rw [writeItems, List.nil_append, run_blank_append rfl (hl.lineBreak e), run_singleton,
      hclose] at h
    cases h
    exact ⟨[], .nil, by rw [List.reverse_cons]⟩
  | cons x xs ih =>
    obtain ⟨hx, hxs⟩ := List.forall_mem_cons.mp hxs
    have hcomma : step ⟨.array done :: outer, .after y, .none⟩ ',' =
        some ⟨.array (y :: done) :: outer, .value, .none⟩ := rfl
    rw [writeItems, List.cons_append, List.append_assoc, List.append_assoc,
      run_cons_of_step hcomma, run_blank_append rfl (hl.lineBreak depth)] at h
    obtain ⟨x', hx', h⟩ := hx.read rfl rfl (ends_items hl depth xs e) h
    obtain ⟨ys, hys, rfl⟩ := ih hxs h
    refine ⟨x' :: ys, .cons hx' hys, ?_⟩
    rw [List.reverse_cons, List.append_assoc]
    rfl

theorem exists_run_members (hl : l.Blank) (hms : ∀ m ∈ ms, Passed l depth m.2)
    {done : List (String × Json)} {key : String} {e : Nat}
    (h : run ⟨.member done key :: outer, .after y, .none⟩
      (writeMembers l depth ms ++ (l.lineBreak e ++ ['}'])) = some r') :
    ∃ ns, List.Forall₂ MemberRereads ms ns ∧ r' = ⟨outer, .after (.obj
      (ns.foldl (fun m p => Assoc.insert p.1 p.2 m) (Assoc.insert key y done))), .none⟩ := by
  induction ms generalizing done key y with
  | nil =>
    have hclose : step ⟨.member done key :: outer, .after y, .none⟩ '}' =
        some ⟨outer, .after (.obj (Assoc.insert key y done)), .none⟩ := rfl
    rw [writeMembers, List.nil_append, run_blank_append rfl (hl.lineBreak e), run_singleton,
      hclose] at h
    cases h
    exact ⟨[], .nil, rfl⟩
  | cons m ms ih =>
    obtain ⟨k, x⟩ := m
    obtain ⟨hx, hms⟩ := List.forall_mem_cons.mp hms
    replace hx : Passed l depth x := hx
    have hcomma : step ⟨.member done key :: outer, .after y, .none⟩ ',' =
        some ⟨outer, .key (Assoc.insert key y done), .none⟩ := rfl
    simp only [writeMembers, List.cons_append, List.append_assoc] at h
    rw [run_cons_of_step hcomma, run_blank_append rfl (hl.lineBreak depth),
      run_key rfl rfl rfl hl.afterColon] at h
    obtain ⟨x', hx', h⟩ := hx.read rfl rfl (ends_members hl depth ms e) h
    obtain ⟨ns, hns, rfl⟩ := ih hms h
    exact ⟨(k, x') :: ns, .cons ⟨rfl, hx'⟩ hns, rfl⟩

theorem passed_arr (hl : l.Blank) (hxs : ∀ x ∈ xs, Passed l (depth + 1) x) :
    Passed l depth (.arr xs) := by
  refine passed_of_closed fun {r r₁} hdue htoken h => ?_
  cases xs with
  | nil =>
    have hclose : step ⟨.array [] :: r.outer, .firstItem, .none⟩ ']' =
        some ⟨r.outer, .after (.arr []), .none⟩ := rfl
    rw [write, run_openArray hdue htoken, run_singleton, hclose] at h
    split_ifs at h
    cases h
    exact ⟨_, .refl _, rfl⟩
  | cons x xs =>
    obtain ⟨hx, hxs⟩ := List.forall_mem_cons.mp hxs
    rw [write, run_openArray hdue htoken] at h
    split_ifs at h
    simp only [List.append_assoc] at h
    rw [run_blank_append rfl (hl.lineBreak (depth + 1))] at h
    obtain ⟨x', hx', h⟩ := hx.read rfl rfl (ends_items hl (depth + 1) xs depth) h
    obtain ⟨ys, hys, rfl⟩ := exists_run_items hl hxs h
    exact ⟨_, .arr (.cons hx' hys), rfl⟩

/-- The members of an object are read one by one. -/
theorem exists_run_obj (hl : l.Blank) (hms : ∀ m ∈ ms, Passed l (depth + 1) m.2)
    (hdue : r.valueDue = true) (htoken : r.token = .none)
    (h : r.run (write l depth (.obj ms)) = some r') :
    ∃ ns, List.Forall₂ MemberRereads ms ns ∧ r' = ⟨r.outer, .after (.ofMembers ns), .none⟩ := by
  cases ms with
  | nil =>
    have hclose : step ⟨r.outer, .firstKey, .none⟩ '}' =
        some ⟨r.outer, .after (.obj []), .none⟩ := rfl
    rw [write, run_openObject hdue htoken, run_singleton, hclose] at h
    split_ifs at h
    cases h
    exact ⟨[], .nil, rfl⟩
  | cons m ms =>
    obtain ⟨key, x⟩ := m
    obtain ⟨hx, hms⟩ := List.forall_mem_cons.mp hms
    replace hx : Passed l (depth + 1) x := hx
    rw [write, run_openObject hdue htoken] at h
    split_ifs at h
    simp only [List.append_assoc, List.cons_append] at h
    rw [run_blank_append rfl (hl.lineBreak (depth + 1)),
      run_key rfl rfl rfl hl.afterColon] at h
    obtain ⟨x', hx', h⟩ := hx.read rfl rfl (ends_members hl (depth + 1) ms depth) h
    obtain ⟨ns, hns, rfl⟩ := exists_run_members hl hms h
    exact ⟨(key, x') :: ns, .cons ⟨rfl, hx'⟩ hns, rfl⟩

end Containers

/-- Whatever a value holds, a reader that gets through its text has read one from it. -/
theorem passed (hl : l.Blank) (j : Json) (depth : Nat) : Passed l depth j := by
  induction j using Json.induct generalizing depth with
  | null =>
    refine passed_of_reads fun _ hdue htoken => ?_
    exact reads_word hdue htoken (by decide : IsWord "null".toList) rfl
  | bool b =>
    refine passed_of_reads fun _ hdue htoken => ?_
    cases b with
    | true => exact reads_word hdue htoken (by decide : IsWord "true".toList) rfl
    | false => exact reads_word hdue htoken (by decide : IsWord "false".toList) rfl
  -- A number may be read as another one, or as none.
  | int n =>
    have hne : write l depth (.int n) ≠ [] := ofInt_ne_nil n
    refine passed_of_word hne (isWord_ofInt n) fun v hv hregular _ => ?_
    rw [write, word?_ofInt hregular] at hv
    exact (Option.some.inj hv).symm
  | float x =>
    have hne : write l depth (.float x) ≠ [] := floatText_ne_nil x
    refine passed_of_word hne (isWord_floatText x) fun v hv _ hexact => ?_
    rw [write, word?_floatText hexact] at hv
    exact (Option.some.inj hv).symm
  | str s => exact passed_of_reads fun _ hdue htoken => reads_str hdue htoken s
  | arr xs ih => exact passed_arr hl fun x hx => ih x hx (depth + 1)
  | obj ms ih =>
    refine passed_of_closed fun hdue htoken h => ?_
    obtain ⟨ns, hns, rfl⟩ := exists_run_obj hl (fun m hm => ih m hm (depth + 1)) hdue htoken h
    exact ⟨_, .obj hns, rfl⟩

theorem exists_parse?_obj (hl : l.Blank)
    (h : parse? (String.ofList (write l 0 (.obj ms))) = some j) :
    ∃ ns, List.Forall₂ MemberRereads ms ns ∧ j = .ofMembers ns := by
  rw [parse?, String.toList_ofList] at h
  obtain ⟨r', hrun, hfinish⟩ := Option.bind_eq_some_iff.mp h
  obtain ⟨ns, hpairs, rfl⟩ := exists_run_obj hl (fun m _ => passed hl m.2 1) rfl rfl hrun
  cases hfinish
  exact ⟨ns, hpairs, rfl⟩

/-- The members that are read from the text of an object are those of the object, one by one. -/
theorem memberRereads_of_parseMembers? (hl : l.Blank) (hms : Assoc.Sorted ms)
    (h : parseMembers? (String.ofList (write l 0 (.obj ms))) = some ns) :
    List.Forall₂ MemberRereads ms ns := by
  unfold parseMembers? at h
  split at h
  next read hread =>
    cases h
    obtain ⟨pairs, hpairs, hofMembers⟩ := exists_parse?_obj hl hread
    have hsorted : Assoc.Sorted pairs := hms.of_forall₂ (fun _ _ => And.left) hpairs
    rw [ofMembers, hsorted.ofList_eq, obj.injEq] at hofMembers
    rwa [hofMembers]
  next => cases h

end EntityStore.Json
