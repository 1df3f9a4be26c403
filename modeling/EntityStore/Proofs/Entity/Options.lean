import EntityStore.Proofs.Entity.Diagnostics
import EntityStore.Proofs.Text.Case

/-! Options of enumerations: which texts are taken for one, whatever their letter case, what is
reported for them, and what a list of texts is refused for. -/
namespace EntityStore.Enumeration

open Text

/-- A text that is an option up to ASCII letter case. -/
def Accepts (e : Enumeration) (v : String) : Prop := ∃ o ∈ e.options, Alike o v

/-- The report of a text that is not spelled as the option that it is taken for. -/
def Reports (e : Enumeration) (v : String) (d : CaseDiagnostic) : Prop :=
  ∃ o ∈ e.options, Alike o v ∧ d = ⟨e, v, o⟩

instance (e : Enumeration) (v : String) : Decidable (e.Accepts v) :=
  inferInstanceAs (Decidable (∃ o ∈ e.options, Alike o v))

variable {e : Enumeration} {name o u v : String} {vs : List String} {err : ValidationError}

section Check

theorem accepts_iff_allows : e.Accepts v ↔ e.Allows v := by
  unfold Accepts Allows
  simp only [folded_eq_iff]

theorem Accepts.congr (h : Alike u v) : e.Accepts u ↔ e.Accepts v :=
  ⟨fun ⟨o, ho, hu⟩ => ⟨o, ho, hu.trans h⟩, fun ⟨o, ho, hv⟩ => ⟨o, ho, hv.trans h.symm⟩⟩

/-- Texts that are alike have one canonical option. -/
theorem canonical?_congr (h : Alike u v) : e.canonical? u = e.canonical? v := by
  unfold canonical? sameFolded
  rw [folded_eq_iff.mpr h]

/-- The canonical option is the one that a text is alike. -/
theorem canonical?_eq_some_iff : e.canonical? v = some o ↔ o ∈ e.options ∧ Alike o v := by
  constructor
  · intro h
    obtain ⟨ho, hfolded⟩ := mem_of_canonical? h
    exact ⟨ho, folded_eq_iff.mp hfolded⟩
  · rintro ⟨ho, hv⟩
    rw [← canonical?_congr hv, canonical?_of_mem ho]

/-- A text is alike one option at most. -/
theorem option_unique {o' : String} (ho : o ∈ e.options) (hv : Alike o v) (ho' : o' ∈ e.options)
    (hv' : Alike o' v) : o' = o := by
  have hfound := canonical?_eq_some_iff.mpr ⟨ho, hv⟩
  rw [canonical?_eq_some_iff.mpr ⟨ho', hv'⟩] at hfound
  exact Option.some_inj.mp hfound

theorem check_of_alike (ho : o ∈ e.options) (hv : Alike o v) (name : String) :
    e.check name v = .ok (if o = v then none else some ⟨e, v, o⟩) := by
  rw [check, canonical?_eq_some_iff.mpr ⟨ho, hv⟩]

theorem check_of_not_accepts (hv : ¬ e.Accepts v) (name : String) :
    e.check name v = .error (.invalidOption name e v) := by
  have hnone : e.canonical? v = none := by
    cases hfound : e.canonical? v with
    | none => rfl
    | some o => exact absurd ⟨o, canonical?_eq_some_iff.mp hfound⟩ hv
  rw [check, hnone]

theorem check_eq_ok_none_iff : e.check name v = .ok none ↔ v ∈ e.options := by
  by_cases haccepts : e.Accepts v
  · obtain ⟨o, ho, hv⟩ := haccepts
    rw [check_of_alike ho hv, Except.ok.injEq]
    constructor
    · intro h
      by_cases heq : o = v
      · exact heq ▸ ho
      · rw [if_neg heq] at h
        cases h
    · intro hmem
      rw [if_pos (option_unique ho hv hmem (.refl v)).symm]
  · rw [check_of_not_accepts haccepts]
    exact iff_of_false nofun fun hmem => haccepts ⟨v, hmem, .refl v⟩

end Check

section CheckAll

/-- What is reported for a list: its texts that are no options letter for letter, in their order. -/
theorem reports_of_checkAll {ds : List CaseDiagnostic} (h : e.checkAll name vs = .ok ds) :
    List.Forall₂ e.Reports (vs.filter (· ∉ e.options)) ds := by
  have hflags := flags_of_checkAll h
  have hstrays : strays (vs.map fun v => (e, v)) =
      (vs.filter (· ∉ e.options)).map fun v => (e, v) := by
    rw [strays, List.filter_map]
    rfl
  rw [hstrays, List.forall₂_map_left_iff] at hflags
  refine hflags.imp fun v d hd => ⟨d.canonical, hd.option, folded_eq_iff.mp hd.folded_eq, ?_⟩
  have henumeration : d.enumeration = e := hd.enumeration_eq
  have hgiven : d.given = v := hd.given_eq
  rw [← henumeration, ← hgiven]

/-- A list is refused for its first text that is no option. -/
theorem checkAll_eq_error_iff : e.checkAll name vs = .error err ↔
    ∃ before v after, vs = before ++ v :: after ∧ (∀ u ∈ before, e.Accepts u) ∧ ¬ e.Accepts v ∧
      err = .invalidOption name e v := by
  constructor
  · intro h
    induction vs with
    | nil => cases h
    | cons v vs ih =>
      rw [checkAll, Except.bind_eq_error_iff] at h
      by_cases haccepts : e.Accepts v
      · obtain ⟨o, ho, hv⟩ := haccepts
        rw [check_of_alike ho hv] at h
        obtain h | ⟨d, -, h⟩ := h
        · cases h
        obtain h | ⟨ds, -, h⟩ := Except.bind_eq_error_iff.mp h
        · obtain ⟨before, w, after, rfl, hbefore, hw, rfl⟩ := ih h
          exact ⟨v :: before, w, after, rfl, List.forall_mem_cons.mpr ⟨⟨o, ho, hv⟩, hbefore⟩, hw,
            rfl⟩
        · cases h
      · rw [check_of_not_accepts haccepts] at h
        obtain h | ⟨d, h, -⟩ := h
        · cases h
          exact ⟨[], v, vs, rfl, List.forall_mem_nil _, haccepts, rfl⟩
        · cases h
  · rintro ⟨before, v, after, rfl, hbefore, hv, rfl⟩
    induction before with
    | nil =>
      rw [List.nil_append, checkAll, check_of_not_accepts hv]
      rfl
    | cons u before ih =>
      obtain ⟨⟨o, ho, hu⟩, hrest⟩ := List.forall_mem_cons.mp hbefore
      rw [List.cons_append, checkAll, check_of_alike ho hu, Except.ok_bind, ih hrest]
      rfl

end CheckAll

/-- A check takes a text for the option that it is alike, which is one, and reports it unless it is
this option letter for letter; it refuses any other text. A list is taken if each of its texts is,
and its reports stand in order; otherwise it is refused for the first that is not, with all options
listed. -/
theorem check_canonical (e : Enumeration) (name : String) :
    (∀ v, (∃ d, e.check name v = .ok d) ↔ e.Accepts v) ∧
    (∀ v, ∀ o ∈ e.options, Alike o v →
      (∀ o' ∈ e.options, Alike o' v → o' = o) ∧ e.canonical? v = some o ∧
        e.check name v = .ok (if o = v then none else some ⟨e, v, o⟩)) ∧
    (∀ v, e.check name v = .ok none ↔ v ∈ e.options) ∧
    (∀ u v, Alike u v → (e.Accepts u ↔ e.Accepts v) ∧ e.canonical? u = e.canonical? v) ∧
    (∀ vs, (∃ ds, e.checkAll name vs = .ok ds) ↔ ∀ v ∈ vs, e.Accepts v) ∧
    (∀ vs ds, e.checkAll name vs = .ok ds →
      List.Forall₂ e.Reports (vs.filter (· ∉ e.options)) ds) ∧
    (∀ vs err, e.checkAll name vs = .error err ↔
      ∃ before v after, vs = before ++ v :: after ∧ (∀ u ∈ before, e.Accepts u) ∧
        ¬ e.Accepts v ∧ err = .invalidOption name e v) ∧
    ∀ v, (ValidationError.invalidOption name e v).message =
      "\"" ++ v ++ "\" is not a valid value for " ++ name ++ " (" ++ e.name ++ "). Options are " ++
        ", ".intercalate e.options := by
  refine ⟨fun v => ?_, fun v o ho hv => ⟨fun o' ho' hv' => option_unique ho hv ho' hv',
      canonical?_eq_some_iff.mpr ⟨ho, hv⟩, check_of_alike ho hv name⟩,
    fun v => check_eq_ok_none_iff, fun u v h => ⟨Accepts.congr h, canonical?_congr h⟩,
    fun vs => ?_, fun vs ds => reports_of_checkAll, fun vs err => checkAll_eq_error_iff,
    fun v => rfl⟩
  · rw [exists_check_iff, accepts_iff_allows]
  · simp only [exists_checkAll_iff, accepts_iff_allows]

/-- Types of devices: one as it is spelled, one in small letters, one with a dotless i, and one that
is no type. -/
def someDevices : List String := ["Sensor", "hmi", "\u0131oT", "Toaster"]

theorem check_canonical_someDevices :
    deviceType.check "device_types" "hmi" = .ok (some ⟨deviceType, "hmi", "HMI"⟩) ∧
      deviceType.canonical? "HmI" = some "HMI" ∧
      deviceType.check "device_types" "Sensor" = .ok none ∧
      (∃ ds, deviceType.checkAll "device_types" (someDevices.take 2) = .ok ds ∧
        List.Forall₂ deviceType.Reports ["hmi"] ds) ∧
      deviceType.checkAll "device_types" someDevices =
        .error (.invalidOption "device_types" deviceType "\u0131oT") := by
  obtain ⟨-, hoption, hexact, halike, hall, hreports, herror, -⟩ :=
    check_canonical deviceType "device_types"
  have haccepted : ∀ v ∈ someDevices.take 2, deviceType.Accepts v := by decide +kernel
  have hrefused : ¬ deviceType.Accepts "\u0131oT" := by decide +kernel
  obtain ⟨-, hcanonical, hcheck⟩ := hoption "hmi" "HMI" (by decide) (by decide)
  obtain ⟨-, hsame⟩ := halike "HmI" "hmi" (by decide)
  obtain ⟨ds, hds⟩ := (hall (someDevices.take 2)).mpr haccepted
  exact ⟨hcheck, hsame.trans hcanonical, (hexact "Sensor").mpr (by decide),
    ⟨ds, hds, hreports _ ds hds⟩,
    (herror _ _).mpr ⟨someDevices.take 2, _, ["Toaster"], rfl, haccepted, hrefused, rfl⟩⟩

end EntityStore.Enumeration
