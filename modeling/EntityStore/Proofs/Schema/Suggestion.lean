import EntityStore.Error
import EntityStore.Proofs.Entity.Origin
import EntityStore.Proofs.Text.Case

/-! Suggestions for mistyped names: which names get one, that it holds the characters that were
typed, and that it is what a refusal tells. -/
namespace EntityStore.Suggestion

open Text

/-- Whether a name holds the characters of a pattern in order. A pattern with an ASCII capital is
taken as it is, any other one in either letter case. -/
def Fits (pattern name : List Char) : Prop :=
  List.SublistForall₂ (fun p c => agrees (caseMatters pattern) c p = true) pattern name

variable {strict : Bool} {c p : Char} {pattern name : List Char} {k : Kind}

section Matching

theorem sublistForall₂_tail {R : Char → Char → Prop}
    (h : List.SublistForall₂ R (p :: pattern) name) : List.SublistForall₂ R pattern name := by
  obtain ⟨part, hpart, hsub⟩ := List.sublistForall₂_iff.mp h
  cases hpart with
  | @cons _ c _ rest _ hrest =>
    exact List.sublistForall₂_iff.mpr ⟨rest, hrest, (List.sublist_cons_self c rest).trans hsub⟩

/-- The leftmost match is found where there is any. -/
theorem isSome_places?_iff (strict : Bool) (i : Nat) (name pattern : List Char) :
    (places? strict i name pattern).isSome = true ↔
      List.SublistForall₂ (fun p c => agrees strict c p = true) pattern name := by
  fun_induction places? strict i name pattern with
  | case1 i name => exact iff_of_true rfl .nil
  | case2 i p pattern => exact iff_of_false Bool.false_ne_true nofun
  | case3 i c name p pattern hagrees ih =>
    rw [Option.isSome_map, ih]
    -- Whoever matches the first character of the pattern further on may as well match it here.
    refine ⟨.cons hagrees, fun h => ?_⟩
    cases h with
    | cons _ hrest => exact hrest
    | cons_right hlater => exact sublistForall₂_tail hlater
  | case4 i c name p pattern hagrees ih =>
    rw [ih]
    refine ⟨.cons_right, fun h => ?_⟩
    cases h with
    | cons hfirst _ => exact absurd hfirst hagrees
    | cons_right hlater => exact hlater

instance (pattern name : List Char) : Decidable (Fits pattern name) :=
  decidable_of_iff _ (isSome_places?_iff _ 0 name pattern)

/-- A name has a score exactly if it fits the pattern, whatever was scored before. -/
theorem isSome_score?_iff (cells : Array Cell) (name pattern : List Char) :
    (score? cells name pattern).1.isSome = true ↔ Fits pattern name := by
  cases pattern with
  | nil => exact iff_of_true rfl .nil
  | cons p pattern =>
    have hne : ¬ (p :: pattern).isEmpty = true := Bool.false_ne_true
    rw [Fits, ← isSome_places?_iff _ 0, score?, if_neg hne]
    dsimp only
    cases places? (caseMatters (p :: pattern)) 0 name (p :: pattern) <;> exact Iff.rfl

theorem agrees_self (strict : Bool) (c : Char) : agrees strict c c = true := by
  rw [agrees, beq_self_eq_true, Bool.true_or]

theorem sameLetter_of_agrees (h : agrees strict c p = true) : SameLetter p c := by
  simp only [agrees, Bool.or_eq_true, beq_iff_eq, Bool.and_eq_true] at h
  obtain rfl | ⟨-, hlower⟩ := h
  · exact .self c
  · exact toLower_eq_iff.mp hlower.symm

/-- Characters that are left out of a name do no harm. -/
theorem fits_of_sublist (h : pattern.Sublist name) : Fits pattern name :=
  List.sublistForall₂_iff.mpr
    ⟨pattern, List.forall₂_same.mpr fun c _ => agrees_self _ c, h⟩

theorem within_of_fits {s t : String} (h : Fits s.toList t.toList) : Within s t := by
  obtain ⟨part, hpart, hsub⟩ := List.sublistForall₂_iff.mp h
  exact List.sublistForall₂_iff.mpr ⟨part, hpart.imp fun _ _ => sameLetter_of_agrees, hsub⟩

end Matching

section Search

/-- What one more kind does to a search: nothing if it does not fit; and if it does, it is the best
unless an earlier one stays it. -/
theorem Search.best_visit (pattern : List Char) (s : Search) (k : Kind) :
    (¬ Fits pattern k.name.toList ∧ (s.visit pattern k).best = s.best) ∨
      (Fits pattern k.name.toList ∧ ∃ n j, (s.visit pattern k).best = some (n, j) ∧
        (j = k ∨ s.best = some (n, j))) := by
  rw [← isSome_score?_iff s.cells, visit]
  obtain ⟨score, cells⟩ := score? s.cells k.name.toList pattern
  cases score with
  | none => exact .inl ⟨Bool.false_ne_true, rfl⟩
  | some n =>
    refine .inr ⟨rfl, ?_⟩
    cases hbest : s.best with
    | none => exact ⟨n, k, rfl, .inl rfl⟩
    | some best =>
      obtain ⟨m, j⟩ := best
      by_cases hle : m ≤ n
      · exact ⟨n, k, congrArg some (if_pos hle), .inl rfl⟩
      · exact ⟨m, j, congrArg some (if_neg hle), .inr rfl⟩

theorem Search.isSome_best_foldl (pattern : List Char) (kinds : List Kind) (s : Search) :
    (kinds.foldl (visit pattern) s).best.isSome = true ↔
      s.best.isSome = true ∨ ∃ k ∈ kinds, Fits pattern k.name.toList := by
  induction kinds generalizing s with
  | nil => simp
  | cons k kinds ih =>
    rw [List.foldl_cons, ih, List.exists_mem_cons_iff]
    obtain ⟨hfits, hbest⟩ | ⟨hfits, n, j, hbest, -⟩ := s.best_visit pattern k
    · rw [hbest, or_iff_right hfits]
    · rw [hbest]
      exact iff_of_true (.inl rfl) (.inr (.inl hfits))

theorem Search.fits_of_best_foldl (pattern : List Char) (kinds : List Kind) (s : Search) {n : Int}
    (h : (kinds.foldl (visit pattern) s).best = some (n, k)) :
    s.best = some (n, k) ∨ Fits pattern k.name.toList := by
  induction kinds generalizing s with
  | nil => exact .inl h
  | cons j kinds ih =>
    obtain hvisit | hfits := ih _ h
    · obtain ⟨-, hbest⟩ | ⟨hfits, m, i, hbest, rfl | hold⟩ := s.best_visit pattern j
      · exact .inl (hbest ▸ hvisit)
      · cases hbest.symm.trans hvisit
        exact .inr hfits
      · exact .inl (hold.trans (hbest.symm.trans hvisit))
    · exact .inr hfits

end Search

section Nearest

variable {name : String}

/-- No two kinds have names that differ in letter case only. -/
theorem nodup_folded_names : (Kind.all.map fun k => folded k.name).Nodup := by decide +kernel

theorem find?_sameFolded_eq_some_iff :
    (Kind.all.find? fun j => sameFolded j.name name) = some k ↔ Alike name k.name := by
  constructor
  · intro h
    have hsame := List.find?_some h
    exact (sameFolded_iff_alike.mp hsame).symm
  · intro h
    have hsame := sameFolded_iff_alike.mpr h.symm
    cases hfound : Kind.all.find? fun j => sameFolded j.name name with
    | none => exact absurd hsame (List.find?_eq_none.mp hfound k k.mem_all)
    | some j =>
      have hfirst := List.find?_some hfound
      have hfolded := (sameFolded_iff.mp hfirst).trans (sameFolded_iff.mp hsame).symm
      rw [List.inj_on_of_nodup_map nodup_folded_names j.mem_all k.mem_all hfolded]

theorem nearest?_of_alike (h : Alike name k.name) : nearest? name = some k := by
  rw [nearest?, find?_sameFolded_eq_some_iff.mpr h]

/-- A name that is no kind's gets the best kind of the search. -/
theorem nearest?_of_not_alike (h : ∀ k : Kind, ¬ Alike name k.name) :
    nearest? name =
      ((Kind.all.foldl (Search.visit name.toList) ⟨#[], none⟩).best).map (·.2) := by
  have hnone : (Kind.all.find? fun j => sameFolded j.name name) = none := by
    cases hfound : Kind.all.find? fun j => sameFolded j.name name with
    | none => rfl
    | some k => exact absurd (find?_sameFolded_eq_some_iff.mp hfound) (h k)
  rw [nearest?, hnone]

/-- A suggestion is a kind of the typed name, or one that fits it. -/
theorem alike_or_fits_of_nearest? (h : nearest? name = some k) :
    Alike name k.name ∨ Fits name.toList k.name.toList := by
  by_cases halike : ∃ j : Kind, Alike name j.name
  · obtain ⟨j, hj⟩ := halike
    cases (nearest?_of_alike hj).symm.trans h
    exact .inl hj
  · rw [nearest?_of_not_alike (not_exists.mp halike), Option.map_eq_some_iff] at h
    obtain ⟨⟨n, j⟩, hbest, rfl⟩ := h
    obtain hstart | hfits := Search.fits_of_best_foldl _ _ _ hbest
    · cases hstart
    · exact .inr hfits

/-- A name gets a suggestion exactly if it is that of a kind up to letter case, or some kind fits
it. -/
theorem exists_nearest?_iff : (∃ k, nearest? name = some k) ↔
    ∃ k : Kind, Alike name k.name ∨ Fits name.toList k.name.toList := by
  constructor
  · rintro ⟨k, h⟩
    exact ⟨k, alike_or_fits_of_nearest? h⟩
  · intro h
    by_cases halike : ∃ j : Kind, Alike name j.name
    · obtain ⟨j, hj⟩ := halike
      exact ⟨j, nearest?_of_alike hj⟩
    · obtain ⟨k, hk⟩ := h
      have hfits := hk.resolve_left (not_exists.mp halike k)
      have hbest := (Search.isSome_best_foldl name.toList Kind.all ⟨#[], none⟩).mpr
        (.inr ⟨k, k.mem_all, hfits⟩)
      obtain ⟨⟨n, j⟩, hj⟩ := Option.isSome_iff_exists.mp hbest
      exact ⟨j, by rw [nearest?_of_not_alike (not_exists.mp halike), hj, Option.map_some]⟩

end Nearest

/-- A suggestion holds the characters of the typed name in order, up to letter case; it is the kind
itself where only letter case differs; and a kind's name with characters left out gets one. A name
resolves exactly to the kind that it is letter for letter, and is refused with its suggestion
otherwise. -/
theorem nearest?_finds (name : String) :
    (∀ k, nearest? name = some k → k ∈ Kind.all ∧ Within name k.name) ∧
    (∀ k : Kind, Alike name k.name → nearest? name = some k) ∧
    (∀ k : Kind, name.toList.Sublist k.name.toList → ∃ j, nearest? name = some j) ∧
    ((∃ k, nearest? name = some k) ↔
      ∃ k : Kind, Alike name k.name ∨ Fits name.toList k.name.toList) ∧
    (∀ k, Kind.resolve name = .ok k ↔ name = k.name) ∧
    ((∀ k : Kind, name ≠ k.name) →
      Kind.resolve name = .error (.unknownKind name (nearest? name))) := by
  refine ⟨fun k h => ⟨k.mem_all, ?_⟩, fun k h => nearest?_of_alike h,
    fun k h => exists_nearest?_iff.mpr ⟨k, .inr (fits_of_sublist h)⟩, exists_nearest?_iff,
    fun k => Kind.resolve_eq_ok_iff, fun h => ?_⟩
  · obtain halike | hfits := alike_or_fits_of_nearest? h
    · exact halike.within
    · exact within_of_fits hfits
  · have hnone : Kind.ofName? name = none := by
      cases hfound : Kind.ofName? name with
      | none => rfl
      | some k => exact absurd (Kind.ofName?_eq_some_iff.mp hfound) (h k)
    rw [Kind.resolve, hnone]

theorem nearest?_finds_mistyped :
    (∃ k, nearest? "PhishAtt" = some k ∧ Within "PhishAtt" k.name) ∧
      nearest? "dEVICE" = some .device ∧
      Kind.resolve "dEVICE" = .error (.unknownKind "dEVICE" (some .device)) ∧
      Kind.resolve "Device" = .ok .device ∧
      nearest? "Z\u00e9bra" = none := by
  obtain ⟨hwithin, -, hparts, -⟩ := nearest?_finds "PhishAtt"
  obtain ⟨-, hcase, -, -, -, hrefused⟩ := nearest?_finds "dEVICE"
  obtain ⟨-, -, -, -, hresolve, -⟩ := nearest?_finds "Device"
  obtain ⟨-, -, -, hnone, -⟩ := nearest?_finds "Z\u00e9bra"
  obtain ⟨k, hk⟩ := hparts .phishingAttack (by decide)
  have hdevice : nearest? "dEVICE" = some .device := hcase .device (by decide)
  refine ⟨⟨k, hk, (hwithin k hk).2⟩, hdevice, ?_, (hresolve .device).mpr rfl, ?_⟩
  · rw [hrefused (by intro k; cases k <;> decide), hdevice]
  · refine Option.eq_none_iff_forall_ne_some.mpr fun k hk => ?_
    obtain ⟨j, hj⟩ := hnone.mp ⟨k, hk⟩
    revert hj
    cases j <;> decide +kernel

end EntityStore.Suggestion
