import EntityStore.Proofs.Files.Tree
import EntityStore.Store.Basic
import Mathlib.Data.List.Infix

/-! Directories that are made for a path stand where the path leads on its way, and what was there
before stays. -/
namespace EntityStore

theorem Path.filter_dropWhile_empty (cs : List String) :
    (cs.dropWhile (· == "")).filter isName = cs.filter isName := by
  induction cs with
  | nil => rfl
  | cons c cs ih =>
    by_cases hc : c = ""
    · subst hc
      exact ih
    · rw [List.dropWhile_cons_of_neg (by simpa using hc)]

theorem Path.filter_withoutEndSlashes (cs : List String) :
    (withoutEndSlashes cs).filter isName = cs.filter isName := by
  rw [withoutEndSlashes, List.filter_reverse, filter_dropWhile_empty, List.filter_reverse,
    List.reverse_reverse]

theorem Path.isName_of_mem_names {text c : String} (h : c ∈ names text) : isName c = true :=
  (List.mem_filter.mp h).2

/-- The directories above a place are those of the first names that lead to it. -/
theorem Path.prefix_of_mem_above {ns ms : List String} (h : ms ∈ above ns) : ms <+: ns := by
  obtain ⟨n, -, rfl⟩ := List.mem_map.mp h
  exact List.take_prefix n ns

namespace Tree

variable {t u v : Tree} {base here p : Path} {cs ms ns : List String} {text : String}

section Walk

theorem walk_cons_eq_ok_iff {c : String} : t.walk here (c :: cs) = .ok p ↔
    t.node? here = some .directory ∧
      (if c = "" ∨ c = "." then t.walk here cs
      else if c = ".." then t.walk here.dropLast cs
      else if maxName < c.utf8ByteSize then .error .nameTooLong
      else t.walk (here ++ [c]) cs) = .ok p := by
  rw [walk, Except.bind_eq_ok_iff]
  simp only [checkDirectory_eq_ok_iff, Except.throw_eq_error]
  exact ⟨fun ⟨_, h⟩ => h, fun h => ⟨(), h⟩⟩

/-- Components that stay where they are may be left out. -/
theorem walk_filter (h : t.walk here cs = .ok p) :
    t.walk here (cs.filter Path.isName) = .ok p := by
  induction cs generalizing here with
  | nil => exact h
  | cons c cs ih =>
    obtain ⟨hdir, h⟩ := walk_cons_eq_ok_iff.mp h
    by_cases hc : c = "" ∨ c = "."
    · have hname : ¬ Path.isName c = true := by
        rcases hc with rfl | rfl <;> decide
      rw [if_pos hc] at h
      rw [List.filter_cons_of_neg hname]
      exact ih h
    · have hname : Path.isName c = true := by
        obtain ⟨hempty, hdot⟩ := not_or.mp hc
        simp [Path.isName, hempty, hdot]
      rw [List.filter_cons_of_pos hname]
      refine walk_cons_eq_ok_iff.mpr ⟨hdir, ?_⟩
      rw [if_neg hc] at h ⊢
      split_ifs at h ⊢
      · exact ih h
      · exact ih h

/-- Names that do not lead up lead down, one by one. -/
theorem eq_append_of_walk (hnames : ∀ c ∈ ns, Path.isName c = true) (hup : ".." ∉ ns)
    (h : t.walk here ns = .ok p) : p = here ++ ns := by
  induction ns generalizing here with
  | nil =>
    cases h
    rw [List.append_nil]
  | cons c cs ih =>
    obtain ⟨hc, hcs⟩ := List.forall_mem_cons.mp hnames
    obtain ⟨hne, hup⟩ := not_or.mp (mt List.mem_cons.mpr hup)
    obtain ⟨-, h⟩ := walk_cons_eq_ok_iff.mp h
    have hstay : ¬ (c = "" ∨ c = ".") := by
      rintro (rfl | rfl) <;> exact absurd hc (by decide)
    rw [if_neg hstay, if_neg (Ne.symm hne)] at h
    split_ifs at h
    rw [ih hcs hup h, List.append_assoc, List.singleton_append]

end Walk

section Made

/-- All that a tree holds is in another one. -/
def Kept (t u : Tree) : Prop := ∀ p n, t.node? p = some n → u.node? p = some n

theorem Kept.walk (h : Kept t u) (hwalk : t.walk here cs = .ok p) : u.walk here cs = .ok p := by
  induction cs generalizing here with
  | nil => exact hwalk
  | cons c cs ih =>
    obtain ⟨hdir, hwalk⟩ := walk_cons_eq_ok_iff.mp hwalk
    refine walk_cons_eq_ok_iff.mpr ⟨h here _ hdir, ?_⟩
    split_ifs at hwalk ⊢
    · exact ih hwalk
    · exact ih hwalk
    · exact ih hwalk

/-- A tree holds another one, and beyond that only directories to which some names lead, or the
first of them. -/
structure MadeAlong (here : Path) (ns : List String) (t u : Tree) : Prop where
  kept : Kept t u
  made : ∀ p n, t.node? p = none → u.node? p = some n →
    n = .directory ∧ ∃ ms, ms <+: ns ∧ u.walk here ms = .ok p

theorem MadeAlong.refl (here : Path) (ns : List String) (t : Tree) : MadeAlong here ns t t := by
  refine ⟨fun _ _ h => h, fun p n hnone hsome => ?_⟩
  rw [hnone] at hsome
  cases hsome

theorem MadeAlong.trans (h : MadeAlong here ns t u) (h' : MadeAlong here ns u v) :
    MadeAlong here ns t v := by
  refine ⟨fun p n hp => h'.kept p n (h.kept p n hp), fun p n hnone hsome => ?_⟩
  cases hu : u.node? p with
  | none => exact h'.made p n hu hsome
  | some m =>
    obtain ⟨rfl, ms, hms, hwalk⟩ := h.made p m hnone hu
    rw [h'.kept p _ hu, Option.some.injEq] at hsome
    exact ⟨hsome.symm, ms, hms, h'.kept.walk hwalk⟩

theorem madeAlong_makeDirectory (hcs : cs.filter Path.isName <+: ns)
    (hwalk : t.walk here cs = .ok p) (h : t.makeDirectory p = .ok u) : MadeAlong here ns t u := by
  obtain ⟨hnone, hnode⟩ := node?_makeDirectory h
  have hkept : Kept t u := by
    intro q n hq
    have hne : q ≠ p := by
      rintro rfl
      rw [hnone] at hq
      cases hq
    rw [hnode, if_neg hne, hq]
  refine ⟨hkept, fun q n hq hn => ?_⟩
  rw [hnode] at hn
  split_ifs at hn with heq
  · cases hn
    exact ⟨rfl, _, hcs, heq ▸ walk_filter (hkept.walk hwalk)⟩
  · rw [hq] at hn
    cases hn

/-- Also where not all directories could be made, those that were stand on the way. -/
theorem madeAlong_makeFirst {css : List (List String)}
    (hcss : ∀ cs ∈ css, cs.filter Path.isName <+: ns) :
    MadeAlong here ns t (t.makeFirst here css).1 := by
  induction css with
  | nil => exact .refl here ns t
  | cons cs above ih =>
    obtain ⟨hcs, habove⟩ := List.forall_mem_cons.mp hcss
    have hmake (u u' : Tree)
        (h : (do u.makeDirectory (← u.walk here (Path.withoutEndSlashes cs))) = .ok u') :
        MadeAlong here ns u u' := by
      obtain ⟨p, hwalk, hp⟩ := Except.bind_eq_ok_iff.mp h
      refine madeAlong_makeDirectory ?_ hwalk hp
      rwa [Path.filter_withoutEndSlashes]
    rw [makeFirst]
    split
    next u hu => exact hmake t u hu
    next =>
      split
      next u e hu =>
        have hu' := ih habove
        rwa [hu] at hu'
      next u hu =>
        have hu' := ih habove
        rw [hu] at hu'
        split
        next u' hmade => exact hu'.trans (hmake u u' hmade)
        next => exact hu'
    next => exact .refl here ns t

/-- The place that a path text is read from. -/
def origin (base : Path) (text : String) : Path := if Path.isAbsolute text then [] else base

theorem madeAlong_makeDirectories (t : Tree) (base : Path) (text : String) :
    MadeAlong (origin base text) (Path.names text) t (t.makeDirectories base text).1 := by
  unfold makeDirectories
  split
  next => exact .refl _ _ t
  next =>
    refine madeAlong_makeFirst (List.forall_mem_cons.mpr ⟨List.prefix_rfl, fun cs hcs => ?_⟩)
    have hbefore := Path.prefix_of_mem_above hcs
    have hnames : ∀ c ∈ cs, Path.isName c = true := fun c hc =>
      Path.isName_of_mem_names (hbefore.subset hc)
    rwa [List.filter_eq_self.mpr hnames]

end Made

end Tree

namespace Store

variable {t u : Tree} {base : Path} {text : String} {options : StoreOptions} {s : Store}

theorem walk_of_existing (h : existing t base text options = .ok s) :
    t.walk (Tree.origin base text) (Path.names text) = .ok s.root := by
  unfold existing at h
  obtain ⟨root, hresolve, h⟩ := Except.bind_eq_ok_iff.mp h
  obtain ⟨-, -, h⟩ := Except.bind_eq_ok_iff.mp h
  cases h
  unfold Tree.resolve at hresolve
  obtain ⟨-, -, hwalk⟩ := Except.bind_eq_ok_iff.mp hresolve
  exact Tree.walk_filter hwalk

theorem madeAlong_openAt (t : Tree) (base : Path) (text : String) (options : StoreOptions) :
    Tree.MadeAlong (Tree.origin base text) (Path.names text) t
      (openAt t base text options).1 := by
  have hmake := Tree.madeAlong_makeDirectories t base text
  unfold openAt
  split
  next => exact .refl _ _ t
  next =>
    split
    next u hu =>
      rw [hu] at hmake
      exact hmake
    next u e hu =>
      rw [hu] at hmake
      exact hmake

theorem walk_of_openAt (h : openAt t base text options = (u, .ok s)) :
    u.walk (Tree.origin base text) (Path.names text) = .ok s.root := by
  unfold openAt at h
  split at h
  next store hstore =>
    cases h
    exact walk_of_existing hstore
  next =>
    split at h
    next v hv =>
      obtain ⟨rfl, hstore⟩ := Prod.ext_iff.mp h
      exact walk_of_existing hstore
    next => cases h

/-- Where a path does not lead up again, nothing is made below its place. -/
theorem node?_below_of_openAt (h : openAt t base text options = (u, .ok s))
    (hup : ".." ∉ Path.names text) {p : Path} (hp : p ≠ []) :
    u.node? (s.root ++ p) = t.node? (s.root ++ p) := by
  have halong := madeAlong_openAt t base text options
  rw [h] at halong
  have hroot := Tree.eq_append_of_walk (fun c => Path.isName_of_mem_names) hup (walk_of_openAt h)
  cases ht : t.node? (s.root ++ p) with
  | some n => exact halong.kept _ n ht
  | none =>
    cases hu : u.node? (s.root ++ p) with
    | none => rfl
    | some n =>
      obtain ⟨-, ms, hms, hwalk⟩ := halong.made _ n ht hu
      have hplace := Tree.eq_append_of_walk
        (fun c hc => Path.isName_of_mem_names (hms.subset hc)) (fun hc => hup (hms.subset hc)) hwalk
      -- The place would have to be longer than the path that leads to it.
      have hlength := congrArg List.length hplace
      have hshort := hms.length_le
      have hlong := List.length_pos_iff.mpr hp
      rw [hroot, List.length_append, List.length_append, List.length_append] at hlength
      omega

end Store

end EntityStore
