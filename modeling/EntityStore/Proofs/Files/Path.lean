import EntityStore.Proofs.Files.Opening
import EntityStore.Proofs.Text.Pieces

/-! Names of files, put behind the path text of a directory. -/
namespace EntityStore

variable {t : Tree} {base here dir : Path} {text name : String}

namespace Path

/-- A name that a file can have in a directory: one component, that leads down. -/
structure Plain (name : String) : Prop where
  isName : isName name = true
  ne_up : name ≠ ".."
  slash_notMem : '/' ∉ name.toList
  null_notMem : '\x00' ∉ name.toList
  size_le : name.utf8ByteSize ≤ Tree.maxName

section Join

theorem Plain.components (h : Plain name) : components name = [name] := by
  rw [Path.components, Text.split_eq_singleton h.slash_notMem]
  simp

theorem Plain.isAbsolute (h : Plain name) : isAbsolute name = false := by
  cases hname : name.toList with
  | nil => simp [Path.isAbsolute, hname]
  | cons c cs =>
    have hc : c ≠ '/' := by
      rintro rfl
      exact h.slash_notMem (by simp [hname])
    simp [Path.isAbsolute, hname, hc]

theorem components_append_slash (as bs : String) :
    components (as ++ "/" ++ bs) = components as ++ components bs := by
  have hslash : (as ++ "/" ++ bs).toList = as.toList ++ '/' :: bs.toList := by simp
  rw [components, hslash, Text.split_append_sep, List.map_append]
  rfl

/-- The components of a path text and then the name. An empty component at the end of the text gives
way to the name. -/
theorem exists_components_join (base : String) :
    ∃ cs, (components base = cs ∨ components base = cs ++ [""]) ∧
      ∀ name, Plain name → components (join base name) = cs ++ [name] := by
  by_cases hempty : base = ""
  · refine ⟨[], .inr (by rw [hempty]; rfl), fun name h => ?_⟩
    rw [join, h.isAbsolute, hempty, ← h.components]
    simp
  by_cases hslash : base.toList.getLast? = some '/'
  · obtain ⟨front, hfront⟩ := List.getLast?_eq_some_iff.mp hslash
    have hbase : base = String.ofList front ++ "/" := by
      rw [← String.toList_inj, hfront]
      simp
    refine ⟨components (String.ofList front), .inr ?_, fun name h => ?_⟩
    · have hcomponents := components_append_slash (String.ofList front) ""
      rwa [String.append_empty, ← hbase] at hcomponents
    · have hjoin : join base name = base ++ name := by
        simp [join, h.isAbsolute, hslash]
      rw [hjoin, hbase, components_append_slash, h.components]
  · refine ⟨components base, .inl rfl, fun name h => ?_⟩
    have hjoin : join base name = base ++ "/" ++ name := by
      simp [join, h.isAbsolute, hempty, hslash]
    rw [hjoin, components_append_slash, h.components]

theorem toList_join (h : Plain name) (base : String) :
    ∃ gap, gap ∈ [[], ['/']] ∧ (join base name).toList = base.toList ++ gap ++ name.toList := by
  unfold join
  rw [if_neg (by simp [h.isAbsolute])]
  split_ifs
  · exact ⟨[], by simp, by simp⟩
  · exact ⟨['/'], by simp, by simp⟩

theorem isAbsolute_join (h : Plain name) (hne : text ≠ "") :
    isAbsolute (join text name) = isAbsolute text := by
  obtain ⟨gap, -, hjoin⟩ := toList_join h text
  obtain ⟨c, cs, hcs⟩ := List.exists_cons_of_ne_nil (mt String.toList_eq_nil_iff.mp hne)
  rw [isAbsolute, isAbsolute, hjoin, hcs]
  rfl

theorem size_le_size_join (h : Plain name) (base : String) :
    base.utf8ByteSize ≤ (join base name).utf8ByteSize := by
  unfold join
  rw [if_neg (by simp [h.isAbsolute])]
  split_ifs
  · rw [String.utf8ByteSize_append]
    omega
  · rw [String.utf8ByteSize_append, String.utf8ByteSize_append]
    omega

end Join

end Path

namespace Tree

section Resolve

theorem walk_append (t : Tree) (here : Path) (xs ys : List String) :
    t.walk here (xs ++ ys) = t.walk here xs >>= fun p => t.walk p ys := by
  induction xs generalizing here with
  | nil => rfl
  | cons x xs ih =>
    rw [List.cons_append, walk, walk]
    cases t.checkDirectory here with
    | error e => rfl
    | ok _ =>
      simp only [Except.ok_bind]
      split_ifs
      · exact ih here
      · exact ih here.dropLast
      · rfl
      · exact ih (here ++ [x])

theorem walk_plain (h : Path.Plain name) (hdir : t.isDirectory here = true) :
    t.walk here [name] = .ok (here ++ [name]) := by
  have hstay : ¬ (name = "" ∨ name = ".") := by
    rintro (rfl | rfl) <;> exact absurd h.isName (by decide)
  refine walk_cons_eq_ok_iff.mpr ⟨isDirectory_iff.mp hdir, ?_⟩
  rw [if_neg hstay, if_neg h.ne_up, if_neg (not_lt.mpr h.size_le)]
  rfl

theorem checkText_eq_ok_iff : checkText text = .ok () ↔
    '\x00' ∉ text.toList ∧ text ≠ "" ∧ text.utf8ByteSize ≤ maxPath := by
  unfold checkText
  simp only [List.contains_iff_mem, String.isEmpty_iff]
  split_ifs with hnull hempty hlong
  · simp [hnull]
  · simp [hempty]
  · simp [Nat.not_le.mpr hlong]
  · simp [hnull, hempty, Nat.not_lt.mp hlong]

/-- A name behind the path text of a directory leads to the place of this name in the directory. -/
theorem resolve_join (h : t.resolve base text = .ok dir) (hdir : t.isDirectory dir = true)
    (hname : Path.Plain name) (hsize : (Path.join text name).utf8ByteSize ≤ maxPath) :
    t.resolve base (Path.join text name) = .ok (dir ++ [name]) := by
  obtain ⟨_, hcheck, hwalk⟩ := Except.bind_eq_ok_iff.mp h
  obtain ⟨hnull, hempty, -⟩ := checkText_eq_ok_iff.mp hcheck
  obtain ⟨gap, hgap, hlist⟩ := Path.toList_join hname text
  have hnull' : '\x00' ∉ (Path.join text name).toList := by
    have hgap' : '\x00' ∉ gap := by
      rcases List.mem_pair.mp hgap with rfl | rfl <;> decide
    rw [hlist]
    simp [hnull, hgap', hname.null_notMem]
  have hempty' : Path.join text name ≠ "" := by
    rw [ne_eq, ← String.toList_eq_nil_iff, hlist]
    simp [hempty]
  have hjoin := checkText_eq_ok_iff.mpr ⟨hnull', hempty', hsize⟩
  obtain ⟨cs, hcs, hall⟩ := Path.exists_components_join text
  have hfront : t.walk (if Path.isAbsolute text then [] else base) cs = .ok dir := by
    rcases hcs with hcs | hcs
    · rwa [hcs] at hwalk
    · rw [hcs, walk_append] at hwalk
      obtain ⟨p, hp, hlast⟩ := Except.bind_eq_ok_iff.mp hwalk
      obtain ⟨-, hlast⟩ := walk_cons_eq_ok_iff.mp hlast
      cases hlast
      exact hp
  rw [resolve, hjoin, Except.ok_bind, Path.isAbsolute_join hname hempty, hall name hname,
    walk_append, hfront]
  exact walk_plain hname hdir

end Resolve

end Tree

end EntityStore
