import EntityStore.Proofs.Distinct
import EntityStore.Proofs.Entity.Origin
import EntityStore.Store.Query

/-! The kinds that a query scans, and their order. -/
namespace EntityStore

/-- Whether each name of a source is that of a kind. -/
def Source.Known : Source → Prop
  | .all => True
  | .names ns => ∀ name ∈ ns, ∃ k : Kind, name = k.name

namespace Store

variable {s : Store} {t : Tree} {source : Source} {k : Kind} {kinds : List Kind}

/-- The kinds that a source stands for: of all, those with a directory in the root; of names, those
that are named. -/
def InScope (s : Store) (t : Tree) (source : Source) (k : Kind) : Prop :=
  match source with
  | .all => t.isDirectory (s.root ++ [k.name]) = true
  | .names names => k.name ∈ names

/-- The kinds that a source stands for, in the order in which they are scanned: of all, in that of
the taxonomy; of names, in that of their first mention. -/
def scanOrder (s : Store) (t : Tree) : Source → List Kind
  | .all => Kind.all.filter fun k => t.isDirectory (s.root ++ [k.name])
  | .names names => (names.filterMap Kind.ofName?).eraseDups

theorem mem_scanOrder_iff : k ∈ s.scanOrder t source ↔ s.InScope t source k := by
  cases source with
  | all =>
    unfold scanOrder InScope
    rw [List.mem_filter]
    exact and_iff_right k.mem_all
  | names names =>
    unfold scanOrder InScope
    rw [List.mem_eraseDups, List.mem_filterMap]
    constructor
    · rintro ⟨name, hname, hk⟩
      rwa [← Kind.ofName?_eq_some_iff.mp hk]
    · intro hname
      exact ⟨k.name, hname, Kind.ofName?_name k⟩

theorem nodup_scanOrder (s : Store) (t : Tree) (source : Source) :
    (s.scanOrder t source).Nodup := by
  cases source with
  | all => exact List.Nodup.filter _ (by decide)
  | names names => exact Distinct.nodup_eraseDups _

theorem resolveNames_map_name (known ks : List Kind) :
    resolveNames known (ks.map Kind.name) =
      .ok (ks.foldl (fun acc k => if acc.contains k then acc else acc ++ [k]) known) := by
  induction ks generalizing known with
  | nil => rfl
  | cons k ks ih =>
    rw [List.map_cons, resolveNames, Kind.resolve_name, Except.ok_bind, ih, List.foldl_cons]

theorem exists_kinds_of_resolveNames {known : List Kind} {names : List String}
    (h : resolveNames known names = .ok kinds) : ∃ ks : List Kind, names = ks.map Kind.name := by
  induction names generalizing known with
  | nil => exact ⟨[], rfl⟩
  | cons name names ih =>
    rw [resolveNames] at h
    obtain ⟨k, hk, hrest⟩ := Except.bind_eq_ok_iff.mp h
    obtain ⟨ks, hks⟩ := ih hrest
    exact ⟨k :: ks, by rw [List.map_cons, ← hks, Kind.resolve_eq_ok_iff.mp hk]⟩

theorem filterMap_ofName?_map_name (ks : List Kind) :
    (ks.map Kind.name).filterMap Kind.ofName? = ks := by
  rw [List.filterMap_map]
  have hname : Kind.ofName? ∘ Kind.name = some := funext Kind.ofName?_name
  rw [hname, List.filterMap_some]

theorem exists_kinds_of_known {names : List String} (h : Source.Known (.names names)) :
    ∃ ks : List Kind, names = ks.map Kind.name := by
  induction names with
  | nil => exact ⟨[], rfl⟩
  | cons name names ih =>
    obtain ⟨k, hk⟩ := h name List.mem_cons_self
    obtain ⟨ks, hks⟩ := ih fun n hn => h n (List.mem_cons_of_mem _ hn)
    exact ⟨k :: ks, by rw [List.map_cons, hk, hks]⟩

theorem resolveSource_names (s : Store) (t : Tree) (ks : List Kind) :
    s.resolveSource t (.names (ks.map Kind.name)) =
      .ok (s.scanOrder t (.names (ks.map Kind.name))) := by
  unfold resolveSource scanOrder
  dsimp only
  rw [resolveNames_map_name, Distinct.foldl_append_new, filterMap_ofName?_map_name]
  simp

/-- A source is resolved exactly when its names are known, and then to the kinds in scan order. -/
theorem resolveSource_eq_ok_iff :
    s.resolveSource t source = .ok kinds ↔ source.Known ∧ kinds = s.scanOrder t source := by
  cases source with
  | all =>
    have hall : s.resolveSource t .all = .ok (s.scanOrder t .all) := rfl
    rw [hall, Except.ok.injEq]
    exact ⟨fun h => ⟨trivial, h.symm⟩, fun h => h.2.symm⟩
  | names names =>
    constructor
    · intro h
      obtain ⟨ks, rfl⟩ := exists_kinds_of_resolveNames h
      rw [resolveSource_names, Except.ok.injEq] at h
      refine ⟨?_, h.symm⟩
      intro name hname
      obtain ⟨k, -, hk⟩ := List.mem_map.mp hname
      exact ⟨k, hk.symm⟩
    · rintro ⟨hknown, rfl⟩
      obtain ⟨ks, rfl⟩ := exists_kinds_of_known hknown
      exact resolveSource_names s t ks

end Store

end EntityStore
