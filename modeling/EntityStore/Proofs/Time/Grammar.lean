import EntityStore.Proofs.Time.RoundTrip

/-! The grammar of RFC 3339 texts, and the instants that they denote. -/
namespace EntityStore

namespace Numeral

variable {ds : List Char}

theorem valueFrom_eq (n : ℕ) (ds : List Char) : valueFrom n ds = 10 ^ ds.length * n + value ds := by
  rw [value, valueFrom_eq_ofDigitChars, valueFrom_eq_ofDigitChars,
    Nat.ofDigitChars_eq_ofDigitChars_zero]

theorem value_cons (d : Char) (ds : List Char) :
    value (d :: ds) = 10 ^ ds.length * (d.toNat - '0'.toNat) + value ds := by
  rw [value, valueFrom_eq_ofDigitChars, Nat.ofDigitChars_cons, Nat.mul_zero, Nat.zero_add,
    ← valueFrom_eq_ofDigitChars, valueFrom_eq]

theorem value_lt (h : ∀ c ∈ ds, c.isDigit = true) : value ds < 10 ^ ds.length := by
  induction ds with
  | nil => exact Nat.one_pos
  | cons d ds ih =>
    have hrest := ih fun c hc => h c (List.mem_cons_of_mem _ hc)
    have hd : d.toNat - '0'.toNat ≤ 9 := by
      have hdigit := Char.isDigit_iff_toNat.mp (h d List.mem_cons_self)
      exact Nat.sub_le_of_le_add hdigit.2
    have hle := Nat.mul_le_mul_left (10 ^ ds.length) hd
    rw [value_cons, List.length_cons, Nat.pow_succ]
    omega

/-- Nine digits of a fraction are its billionths, rounded down. -/
theorem value_nine_digits (h : ∀ c ∈ ds, c.isDigit = true) :
    value (ds.take 9 ++ Decimal.zeros (9 - ds.length)) = value ds * 10 ^ 9 / 10 ^ ds.length := by
  rw [value_append_zeros]
  by_cases hlen : ds.length ≤ 9
  · have hpow : 10 ^ 9 = 10 ^ (9 - ds.length) * 10 ^ ds.length := by
      rw [← Nat.pow_add, Nat.sub_add_cancel hlen]
    rw [List.take_of_length_le hlen, hpow, ← Nat.mul_assoc,
      Nat.mul_div_cancel _ (Nat.pow_pos (by decide)), Nat.mul_comm]
  -- The digits past the ninth add up to less than one billionth.
  · have hsplit : value ds = 10 ^ (ds.length - 9) * value (ds.take 9) + value (ds.drop 9) := by
      have happend := valueFrom_eq (value (ds.take 9)) (ds.drop 9)
      rw [List.length_drop] at happend
      rw [← happend, value, value, ← valueFrom_append, List.take_append_drop]
    have hlt : value (ds.drop 9) < 10 ^ (ds.length - 9) := by
      have hdigits : value (ds.drop 9) < 10 ^ (ds.drop 9).length :=
        value_lt fun c hc => h c (List.mem_of_mem_drop hc)
      rwa [List.length_drop] at hdigits
    have hpow : 10 ^ ds.length = 10 ^ (ds.length - 9) * 10 ^ 9 := by
      rw [← Nat.pow_add, Nat.sub_add_cancel (by omega)]
    rw [hpow, Nat.mul_div_mul_right _ _ (by decide), hsplit,
      Nat.mul_add_div (Nat.pow_pos (by decide)), Nat.div_eq_of_lt hlt,
      Nat.sub_eq_zero_of_le (by omega)]
    simp

end Numeral

namespace Timestamp

/-- A number in a certain count of digits. -/
structure Digits (width n : ℕ) (ds : List Char) : Prop where
  length_eq : ds.length = width
  digits : ∀ c ∈ ds, c.isDigit = true
  value_eq : Numeral.value ds = n

/-- A fraction of a second and its nanoseconds, rounded down. -/
inductive Fraction : List Char → ℕ → Prop
  | whole : Fraction [] 0
  | point {ds : List Char} (hne : ds ≠ []) (hds : ∀ c ∈ ds, c.isDigit = true) :
      Fraction ('.' :: ds) (Numeral.value ds * 10 ^ 9 / 10 ^ ds.length)

/-- An offset from UTC and its seconds. -/
inductive Offset : List Char → ℤ → Prop
  | utc {c : Char} (hc : c = 'Z' ∨ c = 'z') : Offset [c] 0
  | ahead {hs ms : List Char} {h m : ℕ} (hours : Digits 2 h hs) (minutes : Digits 2 m ms)
      (hrange : h ≤ 23 ∧ m ≤ 59) : Offset ('+' :: (hs ++ ':' :: ms)) ((h * 60 + m) * 60)
  | behind {c : Char} {hs ms : List Char} {h m : ℕ} (hc : c = '-' ∨ c = '\u2212')
      (hours : Digits 2 h hs) (minutes : Digits 2 m ms) (hrange : h ≤ 23 ∧ m ≤ 59) :
      Offset (c :: (hs ++ ':' :: ms)) (-((h * 60 + m) * 60))

/-- An instant and a text of RFC 3339 that denotes it: a date, `T` or a space, and the time of a
day at an offset from UTC. Second 60 is a leap second, which shares the count of second 59. -/
inductive Denotes (t : Timestamp) (text : String) : Prop
  | mk {ys os ds hs ms ss fs zs : List Char} {y o d h m s nanos : ℕ} {z : ℤ} {c : Char}
      (htext : text.toList = ys ++ '-' :: (os ++ '-' :: (ds ++ c :: (hs ++ ':' :: (ms ++
        ':' :: (ss ++ (fs ++ zs)))))))
      (year : Digits 4 y ys) (month : Digits 2 o os) (day : Digits 2 d ds)
      (separator : c = 'T' ∨ c = 't' ∨ c = ' ') (hour : Digits 2 h hs) (minute : Digits 2 m ms)
      (second : Digits 2 s ss) (fraction : Fraction fs nanos) (offset : Offset zs z)
      (hdate : (Calendar.Date.mk y o d).valid = true) (htime : h ≤ 23 ∧ m ≤ 59 ∧ s ≤ 60)
      (hseconds : t.seconds = (Calendar.Date.mk y o d).toDays * 86400 +
        (h * 3600 + m * 60 + min s 59 : ℕ) - z)
      (hnanos : t.nanos = if s = 60 then nanos + 10 ^ 9 else nanos)

section Fields

variable {α : Type} {cs rest : List Char} {n : ℕ} {r : α}

theorem Digits.fixed?_append {width : ℕ} {ds : List Char} (h : Digits width n ds)
    (cs : List Char) : fixed? width (ds ++ cs) = some (n, cs) := by
  have htake : (ds ++ cs).take width = ds := List.take_left' h.length_eq
  have hdrop : (ds ++ cs).drop width = cs := List.drop_left' h.length_eq
  unfold fixed?
  dsimp only
  rw [htake, hdrop, if_pos ⟨h.length_eq, List.all_eq_true.mpr h.digits⟩, h.value_eq]

/-- What is read after a number follows its digits. -/
theorem digits_of_bind {width : ℕ} {f : ℕ × List Char → Option α}
    (h : (fixed? width cs >>= f) = some r) :
    ∃ n ds rest, Digits width n ds ∧ cs = ds ++ rest ∧ f (n, rest) = some r := by
  obtain ⟨⟨n, rest⟩, hfixed, hrest⟩ := Option.bind_eq_some_iff.mp h
  unfold fixed? at hfixed
  dsimp only at hfixed
  split_ifs at hfixed with hds
  cases hfixed
  exact ⟨_, cs.take width, _, ⟨hds.1, List.all_eq_true.mp hds.2, rfl⟩,
    (List.take_append_drop _ _).symm, hrest⟩

theorem char_of_bind {p : Char → Bool} {f : List Char → Option α}
    (h : (char? p cs >>= f) = some r) :
    ∃ c rest, p c = true ∧ cs = c :: rest ∧ f rest = some r := by
  obtain ⟨rest, hchar, hrest⟩ := Option.bind_eq_some_iff.mp h
  cases cs with
  | nil => cases hchar
  | cons c cs =>
    rw [char?] at hchar
    split_ifs at hchar with hc
    cases hchar
    exact ⟨c, _, hc, rfl, hrest⟩

theorem mark_of_bind {mark : Char} {f : List Char → Option α}
    (h : (char? (· == mark) cs >>= f) = some r) : ∃ rest, cs = mark :: rest ∧ f rest = some r := by
  obtain ⟨c, rest, hc, hcs, hrest⟩ := char_of_bind h
  exact ⟨rest, beq_iff_eq.mp hc ▸ hcs, hrest⟩

theorem fraction_of_fraction? (h : fraction? cs = some (n, rest)) :
    ∃ fs, Fraction fs n ∧ cs = fs ++ rest := by
  unfold fraction? at h
  split at h
  next ds =>
    dsimp only at h
    split_ifs at h with hempty
    cases h
    have hdigits : ∀ c ∈ ds.takeWhile Char.isDigit, c.isDigit = true :=
      List.all_eq_true.mp List.all_takeWhile
    have hne : ds.takeWhile Char.isDigit ≠ [] := by
      intro hnil
      exact hempty (List.isEmpty_iff.mpr hnil)
    refine ⟨'.' :: ds.takeWhile Char.isDigit, ?_, ?_⟩
    · show Fraction _ (Numeral.value ((ds.takeWhile Char.isDigit).take 9 ++
        Decimal.zeros (9 - (ds.takeWhile Char.isDigit).length)))
      rw [Numeral.value_nine_digits hdigits]
      exact .point hne hdigits
    · rw [List.cons_append]
      exact congrArg _ List.takeWhile_append_dropWhile.symm
  next =>
    cases h
    exact ⟨[], .whole, rfl⟩

theorem Offset.head {zs : List Char} {z : ℤ} (h : Offset zs z) :
    ∃ c cs, zs = c :: cs ∧ c ≠ '.' ∧ c.isDigit = false := by
  cases h with
  | utc hc => rcases hc with rfl | rfl <;> exact ⟨_, _, rfl, by decide, by decide⟩
  | ahead => exact ⟨_, _, rfl, by decide, by decide⟩
  | behind hc => rcases hc with rfl | rfl <;> exact ⟨_, _, rfl, by decide, by decide⟩

/-- The digits of a fraction end where the offset starts. -/
theorem fraction?_append {fs zs : List Char} {z : ℤ} (hf : Fraction fs n) (hz : Offset zs z) :
    fraction? (fs ++ zs) = some (n, zs) := by
  obtain ⟨c, cs, rfl, hpoint, hdigit⟩ := hz.head
  cases hf with
  | whole =>
    rw [List.nil_append]
    unfold fraction?
    split
    next h => exact absurd (List.cons.inj h).1 hpoint
    next => rfl
  | @point ds hne hds =>
    have hspan := Numeral.spanDigits_append_cons hds hdigit cs
    have hempty : ds.isEmpty = false := List.isEmpty_eq_false_iff.mpr hne
    simp only [List.cons_append, fraction?, hspan, hempty, Bool.false_eq_true, if_false,
      Numeral.value_nine_digits hds]

theorem offset_of_offset? {z : ℤ} (hread : offset? cs = some (z, rest)) :
    ∃ zs, Offset zs z ∧ cs = zs ++ rest := by
  cases cs with
  | nil => cases hread
  | cons c cs =>
    rw [offset?] at hread
    by_cases hutc : c = 'Z' ∨ c = 'z'
    · rw [if_pos hutc] at hread
      cases hread
      exact ⟨[c], .utc hutc, rfl⟩
    rw [if_neg hutc] at hread
    by_cases hsign : c = '+' ∨ c = '-' ∨ c = '\u2212'
    · rw [if_pos hsign] at hread
      obtain ⟨h, hs, _, hours, rfl, h₁⟩ := digits_of_bind hread
      obtain ⟨_, rfl, h₂⟩ := mark_of_bind h₁
      obtain ⟨m, ms, _, minutes, rfl, h₃⟩ := digits_of_bind h₂
      dsimp only at h₃
      by_cases hrange : h ≤ 23 ∧ m ≤ 59
      · rw [if_pos hrange] at h₃
        cases h₃
        refine ⟨c :: (hs ++ ':' :: ms), ?_, by simp⟩
        by_cases hplus : c = '+'
        · rw [if_pos hplus, hplus]
          exact .ahead hours minutes hrange
        · rw [if_neg hplus]
          exact .behind (hsign.resolve_left hplus) hours minutes hrange
      · rw [if_neg hrange] at h₃
        cases h₃
    · rw [if_neg hsign] at hread
      cases hread

theorem offset?_of_offset {zs : List Char} {z : ℤ} (h : Offset zs z) :
    offset? zs = some (z, []) := by
  cases h with
  | utc hc => exact if_pos hc
  | ahead hours minutes hrange =>
    have hend := minutes.fixed?_append []
    rw [List.append_nil] at hend
    simp [offset?, hours.fixed?_append, hend, char?, hrange]
  | behind hc hours minutes hrange =>
    have hend := minutes.fixed?_append []
    rw [List.append_nil] at hend
    rcases hc with rfl | rfl <;> simp [offset?, hours.fixed?_append, hend, char?, hrange]

theorem make?_eq_some_iff {seconds : ℤ} {nanos : ℕ} {t : Timestamp} :
    make? seconds nanos = some t ↔ (t.seconds = seconds ∧ t.nanos = nanos) ∧ t.OnClock := by
  constructor
  · intro h
    unfold make? at h
    dsimp only at h
    split_ifs at h with hbounded hclock
    cases h
    exact ⟨⟨rfl, rfl⟩, hclock⟩
  · rintro ⟨⟨rfl, rfl⟩, hclock⟩
    exact make?_of_onClock hclock

end Fields

section Clock

theorem Fraction.lt {fs : List Char} {n : ℕ} (h : Fraction fs n) : n < 10 ^ 9 := by
  cases h with
  | whole => exact Nat.pow_pos (by decide)
  | @point ds hne hds =>
    rw [Nat.div_lt_iff_lt_mul (Nat.pow_pos (by decide)), Nat.mul_comm]
    exact Nat.mul_lt_mul_of_pos_left (Numeral.value_lt hds) (Nat.pow_pos (by decide))

/-- Offsets are whole minutes. -/
theorem Offset.dvd {zs : List Char} {z : ℤ} (h : Offset zs z) : 60 ∣ z := by
  cases h with
  | utc => exact Int.dvd_zero 60
  | ahead => exact Int.dvd_mul_left _ 60
  | behind => exact Int.dvd_neg.mpr (Int.dvd_mul_left _ 60)

/-- Texts denote what clocks show. -/
theorem Denotes.onClock {t : Timestamp} {text : String} (h : t.Denotes text) : t.OnClock := by
  cases h with
  | @mk _ _ _ _ _ _ _ _ _ _ _ _ _ s nanos z _ _ _ _ _ _ _ _ _ fraction offset _ htime hseconds
      hnanos =>
    have hfraction := fraction.lt
    obtain ⟨minutes, hz⟩ := offset.dvd
    unfold OnClock
    split_ifs at hnanos with hleap <;> omega

end Clock

/-- A text is read as the instant that it denotes. -/
theorem parse?_eq_some_iff {text : String} {t : Timestamp} :
    parse? text = some t ↔ t.Denotes text := by
  constructor
  · intro hparse
    obtain ⟨y, ys, _, year, htext, h₁⟩ := digits_of_bind hparse
    obtain ⟨_, rfl, h₂⟩ := mark_of_bind h₁
    obtain ⟨o, os, _, month, rfl, h₃⟩ := digits_of_bind h₂
    obtain ⟨_, rfl, h₄⟩ := mark_of_bind h₃
    obtain ⟨d, ds, _, day, rfl, h₅⟩ := digits_of_bind h₄
    obtain ⟨c, _, hc, rfl, h₆⟩ := char_of_bind h₅
    obtain ⟨h, hs, _, hour, rfl, h₇⟩ := digits_of_bind h₆
    obtain ⟨_, rfl, h₈⟩ := mark_of_bind h₇
    obtain ⟨m, ms, _, minute, rfl, h₉⟩ := digits_of_bind h₈
    obtain ⟨_, rfl, h₁₀⟩ := mark_of_bind h₉
    obtain ⟨s, ss, _, second, rfl, h₁₁⟩ := digits_of_bind h₁₀
    obtain ⟨⟨nanos, _⟩, hfraction, h₁₂⟩ := Option.bind_eq_some_iff.mp h₁₁
    obtain ⟨fs, fraction, rfl⟩ := fraction_of_fraction? hfraction
    obtain ⟨⟨z, rest⟩, hoffset, h₁₃⟩ := Option.bind_eq_some_iff.mp h₁₂
    obtain ⟨zs, offset, rfl⟩ := offset_of_offset? hoffset
    dsimp only at h₁₃
    by_cases hvalid : rest.isEmpty = true ∧ (Calendar.Date.mk y o d).valid = true ∧
        h ≤ 23 ∧ m ≤ 59 ∧ s ≤ 60
    · rw [if_pos hvalid] at h₁₃
      obtain ⟨hempty, hdate, htime⟩ := hvalid
      obtain ⟨⟨hseconds, hnanos⟩, -⟩ := make?_eq_some_iff.mp h₁₃
      rw [List.isEmpty_iff.mp hempty, List.append_nil] at htext
      simp only [Bool.or_eq_true, beq_iff_eq, or_assoc] at hc
      exact .mk htext year month day hc hour minute second fraction offset hdate htime hseconds
        hnanos
    · rw [if_neg hvalid] at h₁₃
      cases h₁₃
  · intro hdenotes
    have hclock := hdenotes.onClock
    obtain @⟨_, _, _, _, _, _, _, _, _, _, _, _, _, _, _, _, c, htext, year, month, day, separator,
      hour, minute, second, fraction, offset, hdate, htime, hseconds, hnanos⟩ := hdenotes
    have hmake := make?_eq_some_iff.mpr ⟨⟨hseconds, hnanos⟩, hclock⟩
    have hseparator : (c == 'T' || c == 't' || c == ' ') = true := by
      simpa [or_assoc] using separator
    simp only [parse?, htext, year.fixed?_append, month.fixed?_append, day.fixed?_append,
      hour.fixed?_append, minute.fixed?_append, second.fixed?_append, char?, beq_self_eq_true,
      hseparator, if_true, fraction?_append fraction offset, offset?_of_offset offset,
      some_bind, List.isEmpty_nil, hdate, htime, true_and, and_self]
    exact hmake

end Timestamp

end EntityStore
