import EntityStore.Proofs.Number.Digits
import EntityStore.Proofs.Time.Calendar
import EntityStore.Time.Timestamp
import Mathlib.Algebra.Order.Ring.Nat
import Mathlib.Tactic.SplitIfs

/-! RFC 3339 texts read back: the text of an instant with a year of four digits denotes it, if
clocks show it, and otherwise the instant that clocks show for it. -/
namespace EntityStore.Timestamp

section Carry

variable {t : Timestamp}

/-- The instant that clocks show for an instant: a leap second before the end of a minute counts as
the next second. -/
def carried (t : Timestamp) : Timestamp :=
  if t.OnClock then t
  else ⟨t.seconds + 1, t.nanos - 1000000000, Nat.lt_of_le_of_lt (Nat.sub_le _ _) t.bounded⟩

theorem carried_of_onClock (h : t.OnClock) : t.carried = t := if_pos h

theorem carried_of_not_onClock (h : ¬ t.OnClock) :
    t.carried.seconds = t.seconds + 1 ∧ t.carried.nanos = t.nanos - 1000000000 := by
  rw [carried, if_neg h]
  exact ⟨rfl, rfl⟩

/-- Only a leap second is carried, so that what comes out is none. -/
theorem onClock_carried (t : Timestamp) : t.carried.OnClock := by
  by_cases h : t.OnClock
  · rwa [carried_of_onClock h]
  · have hnanos := (carried_of_not_onClock h).2
    have hbounded := t.bounded
    exact .inl (by omega)

theorem carried_eq_self_iff : t.carried = t ↔ t.OnClock :=
  ⟨fun h => h ▸ onClock_carried t, carried_of_onClock⟩

/-- The second that a leap second is carried into is one of the same day. -/
theorem date_carried (t : Timestamp) : t.carried.date = t.date := by
  by_cases h : t.OnClock
  · rw [carried_of_onClock h]
  · have hseconds := (carried_of_not_onClock h).1
    have hminute := (not_or.mp h).2
    have hday : (t.seconds + 1) / 86400 = t.seconds / 86400 := by omega
    rw [date, date, hseconds, hday]

theorem make?_of_onClock (h : t.OnClock) : make? t.seconds t.nanos = some t := by
  rw [make?, dif_pos t.bounded]
  exact if_pos h

end Carry

theorem length_padded {w n : Nat} (hw : 0 < w) (h : n < 10 ^ w) : (padded w n).length = w := by
  have := Decimal.length_digits_le hw h
  unfold padded
  dsimp only
  rw [List.length_append, Decimal.length_zeros]
  omega

theorem isDigit_of_mem_padded {w n : Nat} {c : Char} (h : c ∈ padded w n) : c.isDigit = true := by
  rcases List.mem_append.mp h with h | h
  · exact Decimal.isDigit_of_mem_zeros h
  · exact Decimal.isDigit_of_mem_digits h

@[simp] theorem value_padded (w n : Nat) : Numeral.value (padded w n) = n := by
  rw [padded, Numeral.value_zeros_append, Numeral.value_digits]

/-- A number padded to a width is read back. -/
theorem fixed?_padded_append {w n : Nat} (hw : 0 < w) (h : n < 10 ^ w) (cs : List Char) :
    fixed? w (padded w n ++ cs) = some (n, cs) := by
  have hlen := length_padded hw h
  have htake : (padded w n ++ cs).take w = padded w n := List.take_left' hlen
  have hdrop : (padded w n ++ cs).drop w = cs := List.drop_left' hlen
  have hall : (padded w n).all Char.isDigit = true :=
    List.all_eq_true.mpr fun _ => isDigit_of_mem_padded
  unfold fixed?
  dsimp only
  rw [htake, hdrop, if_pos ⟨hlen, hall⟩, value_padded]

/-- Digits of a fraction are worth the more, the fewer there are. -/
theorem fraction?_padded {w k : Nat} (hw : 0 < w) (hw9 : w ≤ 9) (h : k < 10 ^ w) :
    fraction? ('.' :: (padded w k ++ ['Z'])) = some (10 ^ (9 - w) * k, ['Z']) := by
  have hlen := length_padded hw h
  have hne : (padded w k).isEmpty = false := by
    rw [List.isEmpty_eq_false_iff, ← List.length_pos_iff]
    omega
  have htake : (padded w k).take 9 = padded w k := List.take_of_length_le (by omega)
  have hspan : Numeral.spanDigits (padded w k ++ ['Z']) = (padded w k, ['Z']) :=
    Numeral.spanDigits_append_cons (fun _ => isDigit_of_mem_padded) rfl []
  simp only [fraction?, hspan, hne, htake, hlen, Numeral.value_append_zeros, value_padded,
    Bool.false_eq_true, if_false]

/-- The fraction of a second is read back. -/
theorem fraction?_fractionText {nanos : Nat} (h : nanos < 1000000000) :
    fraction? (fractionText nanos ++ ['Z']) = some (nanos, ['Z']) := by
  unfold fractionText
  split_ifs with h0 h6 h3
  · subst h0
    rfl
  · have hk : nanos / 1000000 < 10 ^ 3 := by omega
    rw [List.cons_append, fraction?_padded (by decide) (by decide) hk]
    have : 10 ^ (9 - 3) * (nanos / 1000000) = nanos := by omega
    rw [this]
  · have hk : nanos / 1000 < 10 ^ 6 := by omega
    rw [List.cons_append, fraction?_padded (by decide) (by decide) hk]
    have : 10 ^ (9 - 6) * (nanos / 1000) = nanos := by omega
    rw [this]
  · rw [List.cons_append, fraction?_padded (by decide) (by decide) (by omega)]
    simp

/-- One step of a reader at a time: the general lemmas on binds open the steps behind it too. -/
theorem some_bind {α β : Type} (a : α) (f : α → Option β) : (some a >>= f) = f a := rfl

/-- Reading a text takes its fields from it one by one. -/
theorem parse?_fields {y m d h i s nanos : Nat} (hy : y < 10 ^ 4) (hm : m < 10 ^ 2)
    (hd : d < 10 ^ 2) (hh : h < 10 ^ 2) (hi : i < 10 ^ 2) (hs : s < 10 ^ 2)
    (hn : nanos < 1000000000) :
    parse? (String.ofList (padded 4 y ++ '-' :: padded 2 m ++ '-' :: padded 2 d
        ++ 'T' :: padded 2 h ++ ':' :: padded 2 i ++ ':' :: padded 2 s ++ fractionText nanos
        ++ ['Z'])) =
      if (Calendar.Date.mk y m d).valid ∧ h ≤ 23 ∧ i ≤ 59 ∧ s ≤ 60 then
        make? ((Calendar.Date.mk y m d).toDays * 86400 + (h * 3600 + i * 60 + min s 59 : Nat))
          (if s = 60 then nanos + 1000000000 else nanos)
      else none := by
  have year := fun cs => fixed?_padded_append (by decide) hy cs
  have month := fun cs => fixed?_padded_append (by decide) hm cs
  have day := fun cs => fixed?_padded_append (by decide) hd cs
  have hour := fun cs => fixed?_padded_append (by decide) hh cs
  have minute := fun cs => fixed?_padded_append (by decide) hi cs
  have second := fun cs => fixed?_padded_append (by decide) hs cs
  have offset : offset? ['Z'] = some (0, []) := rfl
  simp only [parse?, String.toList_ofList, List.append_assoc, List.cons_append, some_bind, year,
    month, day, hour, minute, second, char?, beq_self_eq_true, Bool.true_or, if_true,
    fraction?_fractionText hn, offset, List.isEmpty_nil, true_and, Int.sub_zero]

/-- The text of an instant denotes what clocks show for it, when its year has four digits. -/
theorem parse?_render (t : Timestamp) (h₀ : 0 ≤ t.date.year) (h₁ : t.date.year ≤ 9999) :
    parse? t.render = some t.carried := by
  have hmonth : t.date.month ≤ 12 := Calendar.Date.month_ofDays_le _
  have hday : t.date.day ≤ 31 := Calendar.Date.day_ofDays_le _
  have hvalid : t.date.valid = true := Calendar.Date.valid_ofDays _
  have hdays : t.date.toDays = t.seconds / 86400 := Calendar.Date.toDays_ofDays _
  have hbounded := t.bounded
  have hdate : Calendar.Date.mk (t.date.year.toNat : Nat) t.date.month t.date.day = t.date := by
    rw [Int.toNat_of_nonneg h₀]
  have hyear : yearText t.date.year = padded 4 t.date.year.toNat := if_pos ⟨h₀, h₁⟩
  unfold render
  dsimp only
  rw [hyear, parse?_fields (by omega) (by omega) (by omega) (by omega) (by omega) (by omega)
    (by omega), hdate, hdays, if_pos ⟨hvalid, by omega, by omega, by omega⟩]
  -- Second 60 is written at the end of a minute only. Elsewhere a leap second has moved on by one.
  have hfields : t.seconds / 86400 * 86400 + ((t.seconds % 86400).toNat / 3600 * 3600
        + (t.seconds % 86400).toNat / 60 % 60 * 60
        + min ((t.seconds % 86400).toNat % 60 + t.nanos / 1000000000) 59 : Nat) =
          t.carried.seconds ∧
      (if (t.seconds % 86400).toNat % 60 + t.nanos / 1000000000 = 60
        then t.nanos % 1000000000 + 1000000000 else t.nanos % 1000000000) = t.carried.nanos := by
    by_cases h : t.OnClock
    · rw [carried_of_onClock h]
      obtain hnanos | hminute := h <;> split_ifs <;> omega
    · obtain ⟨hseconds, hnanos⟩ := carried_of_not_onClock h
      obtain ⟨hlong, hminute⟩ := not_or.mp h
      rw [hseconds, hnanos]
      split_ifs <;> omega
  rw [hfields.1, hfields.2, make?_of_onClock (onClock_carried t)]

end EntityStore.Timestamp
