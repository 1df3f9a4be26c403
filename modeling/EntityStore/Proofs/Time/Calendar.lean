import EntityStore.Time.Calendar
import Mathlib.Algebra.Order.Ring.Nat
import Mathlib.Tactic.SplitIfs

/-! The calendar read both ways: a count of days gives a date that exists and has this count. -/
namespace EntityStore.Calendar

/-- A year has 365 days, and one more if it is a leap year. -/
theorem daysBeforeYear_succ (y : Int) :
    daysBeforeYear (y + 1) = daysBeforeYear y + 365 + if isLeap y then 1 else 0 := by
  unfold daysBeforeYear isLeap
  by_cases h4 : y % 4 = 0
  · by_cases h100 : y % 100 = 0
    · by_cases h400 : y % 400 = 0 <;> simp [h4, h100, h400] <;> omega
    · simp [h4, h100]
      omega
  · simp [h4]
    omega

/-- The year of a day starts on that day or before. -/
theorem daysBeforeYear_yearOf_le (n : Int) : daysBeforeYear (yearOf n) ≤ n := by
  unfold yearOf
  dsimp only
  split_ifs with h₁ h₂
  · unfold daysBeforeYear
    omega
  · exact h₂
  · omega

/-- The year after that of a day starts later. -/
theorem lt_daysBeforeYear_yearOf_succ (n : Int) : n < daysBeforeYear (yearOf n + 1) := by
  unfold yearOf
  dsimp only
  split_ifs with h₁ h₂
  · rwa [Int.sub_add_cancel]
  · unfold daysBeforeYear
    omega
  · omega

theorem sum_monthLengths (y : Int) :
    (monthLengths y).sum = 365 + if isLeap y then 1 else 0 := by
  unfold monthLengths
  cases isLeap y <;> rfl

theorem monthLength_le {y : Int} {len : Nat} (h : len ∈ monthLengths y) : len ≤ 31 := by
  unfold monthLengths at h
  cases hy : isLeap y <;> simp [hy] at h <;> omega

/-- Counting through months from month `m` stops at a month and a day in it. -/
theorem monthDay_spec (m : Nat) (lens : List Nat) (n : Nat) (h : n < lens.sum) :
    ∃ i len, monthDay m lens n = (m + i, n - (lens.take i).sum + 1) ∧ lens[i]? = some len ∧
      (lens.take i).sum ≤ n ∧ n - (lens.take i).sum < len := by
  induction lens generalizing m n with
  | nil => simp at h
  | cons len lens ih =>
    by_cases hn : n < len
    · exact ⟨0, len, by simp [monthDay, hn], rfl, by simp, by simpa using hn⟩
    · have hrest : n - len < lens.sum := by
        rw [List.sum_cons] at h
        omega
      obtain ⟨i, l, hm, hl, hle, hlt⟩ := ih (m + 1) (n - len) hrest
      refine ⟨i + 1, l, ?_, hl, ?_, ?_⟩
      · rw [monthDay, if_neg hn, hm, List.take_succ_cons, List.sum_cons]
        simp only [Prod.mk.injEq]
        omega
      · rw [List.take_succ_cons, List.sum_cons]
        omega
      · rw [List.take_succ_cons, List.sum_cons]
        omega

/-- The day in its year that the date of a count of days stands at. -/
theorem dayOfYear_lt (n : Int) :
    (n - daysBeforeYear (yearOf n)).toNat < (monthLengths (yearOf n)).sum := by
  have hlo := daysBeforeYear_yearOf_le n
  have hhi := lt_daysBeforeYear_yearOf_succ n
  rw [daysBeforeYear_succ] at hhi
  rw [sum_monthLengths]
  split_ifs at hhi ⊢ <;> omega

namespace Date

/-- The date of a count of days: the months before it leave a day in its month. -/
theorem ofDays_spec (days : Int) :
    let y := yearOf (days + epoch)
    let k := (days + epoch - daysBeforeYear y).toNat
    ∃ i len, ofDays days = ⟨y, 1 + i, k - ((monthLengths y).take i).sum + 1⟩ ∧
      (monthLengths y)[i]? = some len ∧ ((monthLengths y).take i).sum ≤ k ∧
      k - ((monthLengths y).take i).sum < len := by
  intro y k
  obtain ⟨i, len, hm, hl, hle, hlt⟩ := monthDay_spec 1 _ _ (dayOfYear_lt (days + epoch))
  refine ⟨i, len, ?_, hl, hle, hlt⟩
  unfold ofDays
  dsimp only
  rw [hm]

theorem valid_ofDays (days : Int) : (ofDays days).valid = true := by
  obtain ⟨i, len, hd, hl, _, hlt⟩ := ofDays_spec days
  rw [hd]
  simp only [valid, Nat.add_sub_cancel_left, List.getD_eq_getElem?_getD, hl, Option.getD_some,
    Bool.and_eq_true, decide_eq_true_eq]
  omega

/-- Months have two digits at most. -/
theorem month_ofDays_le (days : Int) : (ofDays days).month ≤ 12 := by
  obtain ⟨i, len, hd, hl, _, _⟩ := ofDays_spec days
  have hi : i < (monthLengths (yearOf (days + epoch))).length :=
    (List.getElem?_eq_some_iff.mp hl).1
  have : (monthLengths (yearOf (days + epoch))).length = 12 := rfl
  rw [hd]
  dsimp only
  omega

/-- Days of a month have two digits at most. -/
theorem day_ofDays_le (days : Int) : (ofDays days).day ≤ 31 := by
  obtain ⟨i, len, hd, hl, _, hlt⟩ := ofDays_spec days
  have hlen := monthLength_le (List.mem_of_getElem? hl)
  rw [hd]
  dsimp only
  omega

/-- Counting the days to the date of a count gives the count back. -/
theorem toDays_ofDays (days : Int) : (ofDays days).toDays = days := by
  obtain ⟨i, len, hd, _, hle, _⟩ := ofDays_spec days
  have hlo := daysBeforeYear_yearOf_le (days + epoch)
  rw [hd]
  simp only [toDays, daysBeforeMonth, Nat.add_sub_cancel_left, Nat.add_sub_cancel,
    ← List.sum_eq_foldl]
  omega

end Date

end EntityStore.Calendar
