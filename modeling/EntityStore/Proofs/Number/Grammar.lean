import EntityStore.Proofs.Number.Limit
import Mathlib.Data.List.TakeWhile

/-! The texts that are numbers, and their reading as floats. -/
namespace EntityStore.Numeral

variable {cs ds body rest : List Char} {n : ℤ} {negative : Bool}

/-- An optional exponent: a mark and an integer. -/
inductive IsExponent : List Char → Prop
  | absent : IsExponent []
  | stated {mark : Char} {text : List Char} {n : ℤ} (hmark : mark = 'e' ∨ mark = 'E')
      (htext : Denotes text n) : IsExponent (mark :: text)

/-- Digits, at least one of them, with an optional point among or beside them. -/
inductive IsMantissa : List Char → Prop
  | whole {ds : List Char} (hne : ds ≠ []) (hds : ∀ d ∈ ds, d.isDigit = true) : IsMantissa ds
  | pointed {ds fs : List Char} (hne : ds ≠ [] ∨ fs ≠ []) (hds : ∀ d ∈ ds, d.isDigit = true)
      (hfs : ∀ d ∈ fs, d.isDigit = true) : IsMantissa (ds ++ '.' :: fs)

/-- A text of a number without its sign: digits with an optional point and an optional exponent, or
a word for infinity in any letter case. -/
inductive IsMagnitude : List Char → Prop
  | decimal {digits exponent : List Char} (hdigits : IsMantissa digits)
      (hexponent : IsExponent exponent) : IsMagnitude (digits ++ exponent)
  | infinite {word : List Char}
      (hword : word.map Char.toLower = "inf".toList ∨ word.map Char.toLower = "infinity".toList) :
      IsMagnitude word

/-- A text of a number, with an optional sign. NaN is no number. -/
inductive IsNumber : List Char → Prop
  | unsigned {body : List Char} (h : IsMagnitude body) : IsNumber body
  | signed {sign : Char} {body : List Char} (hsign : sign = '+' ∨ sign = '-')
      (h : IsMagnitude body) : IsNumber (sign :: body)

section Integers

/-- A sign is taken off, if there is one. -/
theorem splitSign_cases (h : splitSign cs = (negative, body)) :
    (negative = false ∧ cs = body) ∨ (negative = false ∧ cs = '+' :: body) ∨
      (negative = true ∧ cs = '-' :: body) := by
  unfold splitSign at h
  split at h
  next =>
    cases h
    exact .inr (.inr ⟨rfl, rfl⟩)
  next =>
    cases h
    exact .inr (.inl ⟨rfl, rfl⟩)
  next =>
    cases h
    exact .inl ⟨rfl, rfl⟩

theorem integer?_eq_some_iff : integer? cs = some n ↔ Denotes cs n := by
  constructor
  · intro h
    rcases hsplit : splitSign cs with ⟨negative, ds⟩
    unfold integer? at h
    rw [hsplit] at h
    dsimp only at h
    split_ifs at h with hguard hnegative
    all_goals
      simp only [Bool.or_eq_true, Bool.not_eq_true', not_or, Bool.not_eq_true, Bool.not_eq_false,
        List.isEmpty_eq_false_iff, List.all_eq_true] at hguard
      obtain ⟨hne, hds⟩ := hguard
      obtain rfl := Option.some.inj h
    · obtain ⟨rfl, rfl⟩ | ⟨rfl, rfl⟩ | ⟨-, rfl⟩ := splitSign_cases hsplit
      · cases hnegative
      · cases hnegative
      · exact .minus hne hds
    · obtain ⟨-, rfl⟩ | ⟨-, rfl⟩ | ⟨rfl, rfl⟩ := splitSign_cases hsplit
      · exact .plain hne hds
      · exact .plus hne hds
      · exact absurd rfl hnegative
  · exact Denotes.integer?

theorem exists_exponent?_iff : (∃ e, exponent? cs = some e) ↔ IsExponent cs := by
  constructor
  · rintro ⟨e, he⟩
    cases cs with
    | nil => exact .absent
    | cons mark text =>
      rw [exponent?] at he
      split_ifs at he with hmark
      exact .stated hmark (integer?_eq_some_iff.mp he)
  · intro h
    cases h with
    | absent => exact ⟨0, rfl⟩
    | stated hmark htext => exact ⟨_, (if_pos hmark).trans htext.integer?⟩

/-- A numeral of an integer is a number. -/
theorem Denotes.isNumber (h : Denotes cs n) : IsNumber cs := by
  have hmagnitude {ds : List Char} (hne : ds ≠ []) (hds : ∀ d ∈ ds, d.isDigit = true) :
      IsMagnitude ds := by
    have hdecimal := IsMagnitude.decimal (.whole hne hds) .absent
    rwa [List.append_nil] at hdecimal
  cases h with
  | plain hne hds => exact .unsigned (hmagnitude hne hds)
  | plus hne hds => exact .signed (.inl rfl) (hmagnitude hne hds)
  | minus hne hds => exact .signed (.inr rfl) (hmagnitude hne hds)

end Integers

section Floats

theorem isNaN_ofScientific (negative : Bool) (c : ℕ) (e : ℤ) :
    (ofScientific negative c e).isNaN = false := by
  unfold ofScientific
  dsimp only
  split_ifs
  · exact Binary64.isNaN_ofRank negative 0
  · exact Binary64.isNaN_ofRank negative _
  · exact Binary64.isNaN_ofRatio _ _ _

/-- Digits are taken off a text up to what is no digit. -/
theorem spanDigits_append (hds : ∀ d ∈ ds, d.isDigit = true)
    (hrest : ∀ c ∈ rest.head?, c.isDigit = false) : spanDigits (ds ++ rest) = (ds, rest) := by
  cases rest with
  | nil => rw [List.append_nil, spanDigits_of_digits hds]
  | cons c rest => exact spanDigits_append_cons hds (hrest c rfl) rest

theorem spanDigits_eq (h : spanDigits cs = (ds, rest)) :
    cs = ds ++ rest ∧ ∀ d ∈ ds, d.isDigit = true := by
  unfold spanDigits at h
  cases h
  exact ⟨List.takeWhile_append_dropWhile.symm, fun d hd => List.mem_takeWhile_imp hd⟩

theorem IsExponent.head? (h : IsExponent cs) : ∀ c ∈ cs.head?, c.isDigit = false ∧ c ≠ '.' := by
  intro c hc
  cases h with
  | absent => cases hc
  | stated hmark _ =>
    cases Option.mem_some.mp hc
    rcases hmark with rfl | rfl <;> decide

/-- A number starts with a digit, a point or a letter, and what starts with either of the first two
is no word. -/
theorem IsMantissa.head (h : IsMantissa cs) :
    ∃ c tail, cs = c :: tail ∧ (c.isDigit = true ∨ c = '.') := by
  cases h with
  | whole hne hds =>
    obtain ⟨d, ds, rfl⟩ := List.exists_cons_of_ne_nil hne
    exact ⟨d, ds, rfl, .inl (hds d List.mem_cons_self)⟩
  | @pointed ds fs hne hds hfs =>
    cases ds with
    | nil => exact ⟨'.', fs, rfl, .inr rfl⟩
    | cons d ds => exact ⟨d, _, rfl, .inl (hds d List.mem_cons_self)⟩

/-- What is read as a number, other than by a word, is digits and an exponent. -/
theorem isMagnitude_of_binary64? (hsplit : splitSign cs = (negative, body)) {x : Binary64}
    (h : binary64? cs = some x) (hx : x.isNaN = false) : IsMagnitude body := by
  unfold binary64? at h
  rw [hsplit] at h
  dsimp only at h
  by_cases hword : body.map Char.toLower = "inf".toList ∨ body.map Char.toLower = "infinity".toList
  · exact .infinite hword
  rw [if_neg hword] at h
  by_cases hnan : body.map Char.toLower = "nan".toList
  · rw [if_pos hnan] at h
    cases h
    exact absurd hx (by decide)
  rw [if_neg hnan] at h
  rcases hwhole : spanDigits body with ⟨ds, more⟩
  obtain ⟨rfl, hds⟩ := spanDigits_eq hwhole
  rw [hwhole] at h
  dsimp only at h
  split at h
  next tail =>
    rcases hfraction : spanDigits tail with ⟨fs, rest⟩
    obtain ⟨rfl, hfs⟩ := spanDigits_eq hfraction
    rw [hfraction] at h
    dsimp only at h
    split_ifs at h with hempty
    obtain ⟨e, he, -⟩ := Option.map_eq_some_iff.mp h
    have hne : ds ≠ [] ∨ fs ≠ [] := by
      simpa [Classical.or_iff_not_imp_left] using hempty
    have hdecimal := IsMagnitude.decimal (.pointed hne hds hfs) (exists_exponent?_iff.mp ⟨e, he⟩)
    rwa [List.append_assoc] at hdecimal
  next =>
    dsimp only at h
    split_ifs at h with hempty
    obtain ⟨e, he, -⟩ := Option.map_eq_some_iff.mp h
    have hne : ds ≠ [] := by simpa using hempty
    exact .decimal (.whole hne hds) (exists_exponent?_iff.mp ⟨e, he⟩)

/-- What starts with a digit or a point is no word. -/
theorem map_toLower_ne_of_head {c : Char} (hc : c.isDigit = true ∨ c = '.') (tail : List Char)
    {letter : Char} (hletter : letter.isDigit = false ∧ letter ≠ '.') (letters : List Char) :
    (c :: tail).map Char.toLower ≠ letter :: letters := by
  have hlower : c.toLower = c := by
    rcases hc with hc | rfl
    · exact toLower_of_isDigit hc
    · rfl
  rw [List.map_cons, hlower]
  intro heq
  cases heq
  rcases hc with hc | rfl
  · rw [hletter.1] at hc
    cases hc
  · exact hletter.2 rfl

theorem exists_binary64?_of_decimal {digits exponent : List Char} (hdigits : IsMantissa digits)
    (hexponent : IsExponent exponent) (hsplit : splitSign cs = (negative, digits ++ exponent)) :
    ∃ x, binary64? cs = some x ∧ x.isNaN = false := by
  obtain ⟨c, tail, hcons, hc⟩ := hdigits.head
  have hne (letter : Char) (letters : List Char) (hl : letter.isDigit = false ∧ letter ≠ '.') :
      (digits ++ exponent).map Char.toLower ≠ letter :: letters := by
    rw [hcons, List.cons_append]
    exact map_toLower_ne_of_head hc _ hl letters
  have hword : ¬ ((digits ++ exponent).map Char.toLower = "inf".toList ∨
      (digits ++ exponent).map Char.toLower = "infinity".toList) :=
    not_or.mpr ⟨hne 'i' _ (by decide), hne 'i' _ (by decide)⟩
  have hnan : (digits ++ exponent).map Char.toLower ≠ "nan".toList := hne 'n' _ (by decide)
  obtain ⟨e, he⟩ := exists_exponent?_iff.mpr hexponent
  unfold binary64?
  rw [hsplit]
  dsimp only
  rw [if_neg hword, if_neg hnan]
  cases hdigits with
  | whole hempty hds =>
    have hspan := spanDigits_append hds fun c hc => (hexponent.head? c hc).1
    rw [hspan]
    dsimp only
    split
    next tail => exact absurd rfl (hexponent.head? '.' rfl).2
    next =>
      dsimp only
      rw [if_neg (by simpa using hempty), he]
      exact ⟨_, rfl, isNaN_ofScientific _ _ _⟩
  | @pointed ds fs hempty hds hfs =>
    have hpoint : ∀ c ∈ ('.' :: (fs ++ exponent)).head?, c.isDigit = false := by simp
    have hspan := spanDigits_append hds hpoint
    have hspan' := spanDigits_append hfs fun c hc => (hexponent.head? c hc).1
    rw [List.append_assoc, List.cons_append, hspan]
    simp only [hspan']
    rw [if_neg (by simpa [Classical.or_iff_not_imp_left] using hempty), he]
    exact ⟨_, rfl, isNaN_ofScientific _ _ _⟩

theorem exists_binary64?_of_isMagnitude (h : IsMagnitude body)
    (hsplit : splitSign cs = (negative, body)) :
    ∃ x, binary64? cs = some x ∧ x.isNaN = false := by
  cases h with
  | decimal hdigits hexponent => exact exists_binary64?_of_decimal hdigits hexponent hsplit
  | infinite hword =>
    unfold binary64?
    rw [hsplit]
    dsimp only
    rw [if_pos hword]
    exact ⟨_, rfl, Binary64.isNaN_ofRank _ _⟩

/-- A number without its sign does not start with one. -/
theorem IsMagnitude.head? (h : IsMagnitude body) : ∀ c ∈ body.head?, c ≠ '+' ∧ c ≠ '-' := by
  intro d hd
  cases h with
  | decimal hdigits hexponent =>
    obtain ⟨c, tail, rfl, hc⟩ := hdigits.head
    cases Option.mem_some.mp hd
    rcases hc with hc | rfl
    · constructor <;> (rintro rfl; revert hc; decide)
    · decide
  | infinite hword =>
    cases body with
    | nil => cases hd
    | cons c tail =>
      cases Option.mem_some.mp hd
      constructor
      · rintro rfl
        rcases hword with hword | hword <;> cases hword
      · rintro rfl
        rcases hword with hword | hword <;> cases hword

theorem IsNumber.splitSign (h : IsNumber cs) :
    ∃ negative body, Numeral.splitSign cs = (negative, body) ∧ IsMagnitude body := by
  cases h with
  | unsigned hbody =>
    refine ⟨false, cs, ?_, hbody⟩
    unfold Numeral.splitSign
    split
    next => exact absurd rfl (hbody.head? '-' rfl).2
    next => exact absurd rfl (hbody.head? '+' rfl).1
    next => rfl
  | signed hsign hbody =>
    rcases hsign with rfl | rfl
    · exact ⟨false, _, rfl, hbody⟩
    · exact ⟨true, _, rfl, hbody⟩

/-- A text is read as a float other than NaN exactly when it is a number. -/
theorem exists_binary64?_iff :
    (∃ x, binary64? cs = some x ∧ x.isNaN = false) ↔ IsNumber cs := by
  constructor
  · rintro ⟨x, h, hx⟩
    rcases hsplit : splitSign cs with ⟨negative, body⟩
    have hbody := isMagnitude_of_binary64? hsplit h hx
    obtain ⟨-, rfl⟩ | ⟨-, rfl⟩ | ⟨-, rfl⟩ := splitSign_cases hsplit
    · exact .unsigned hbody
    · exact .signed (.inl rfl) hbody
    · exact .signed (.inr rfl) hbody
  · intro h
    obtain ⟨negative, body, hsplit, hbody⟩ := h.splitSign
    exact exists_binary64?_of_isMagnitude hbody hsplit

end Floats

end EntityStore.Numeral
