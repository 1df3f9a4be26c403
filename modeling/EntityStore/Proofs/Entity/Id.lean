import EntityStore.Entity.Id

/-! Ids as texts. -/
namespace EntityStore.Id

theorem strip?_eq_some_iff {ps cs rest : List Char} :
    strip? ps cs = some rest ↔ cs = ps ++ rest := by
  induction ps generalizing cs with
  | nil => simp [strip?]
  | cons p ps ih =>
    cases cs with
    | nil => simp [strip?]
    | cons c cs =>
      rw [strip?, List.cons_append, List.cons.injEq]
      by_cases hp : p = c
      · rw [if_pos hp, ih]
        exact ⟨fun h => ⟨hp.symm, h⟩, And.right⟩
      · rw [if_neg hp]
        exact iff_of_false nofun fun h => hp h.1.symm

/-- An id is the text that its kind asks for, and a UUID behind it. -/
theorem valid_iff {kind : Kind} {id : String} : valid kind id = true ↔
    ∃ uuid, isUuid4 uuid = true ∧ id.toList = (kind.idPrefix?.getD "").toList ++ uuid := by
  unfold valid
  cases h : strip? (kind.idPrefix?.getD "").toList id.toList with
  | none =>
    refine iff_of_false Bool.false_ne_true ?_
    rintro ⟨uuid, -, huuid⟩
    rw [strip?_eq_some_iff.mpr huuid] at h
    cases h
  | some uuid =>
    have hid := strip?_eq_some_iff.mp h
    constructor
    · intro huuid
      exact ⟨uuid, huuid, hid⟩
    · rintro ⟨uuid', huuid', hid'⟩
      have hsame : uuid = uuid' := List.append_cancel_left (hid.symm.trans hid')
      exact hsame ▸ huuid'

theorem idPrefix?_eq_some {kind : Kind} {p : String} (h : kind.idPrefix? = some p) :
    p = "relationship--" := by
  unfold Kind.idPrefix? at h
  split at h
  · exact (Option.some.inj h).symm
  · cases h

theorem isUuid4_head {uuid : List Char} (h : isUuid4 uuid = true) :
    ∃ c cs, uuid = c :: cs ∧ isHexDigit c = true := by
  unfold isUuid4 at h
  obtain ⟨hlen, hfits⟩ := Bool.and_eq_true_iff.mp h
  cases uuid with
  | nil => cases hlen
  | cons c cs =>
    have hc := (Bool.and_eq_true_iff.mp hfits).1
    exact ⟨c, cs, rfl, hc⟩

/-- An id starts with the letter of a prefix or with a hexadecimal digit, and never with a dot. -/
theorem head_of_valid {kind : Kind} {id : String} (h : valid kind id = true) :
    ∃ c cs, id.toList = c :: cs ∧ c ≠ '.' := by
  obtain ⟨uuid, huuid, hid⟩ := valid_iff.mp h
  cases hp : kind.idPrefix? with
  | none =>
    obtain ⟨c, cs, rfl, hc⟩ := isUuid4_head huuid
    rw [hp] at hid
    refine ⟨c, cs, hid, ?_⟩
    rintro rfl
    exact absurd hc (by decide)
  | some p =>
    rw [hp, idPrefix?_eq_some hp] at hid
    exact ⟨'r', _, hid, by decide⟩

end EntityStore.Id
