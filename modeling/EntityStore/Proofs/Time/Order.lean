import EntityStore.Proofs.Query.Comparison
import EntityStore.Proofs.Time.Calendar
import EntityStore.Time.Timestamp
import Mathlib.Data.List.Lex

/-! Instants are ordered as a clock in UTC shows them, leap seconds included. -/
namespace EntityStore

namespace Calendar

/-- The part of a list before a place and what stands there are part of what comes before a later
place. -/
theorem sum_take_add_le {lens : List Nat} {i j len : Nat} (hi : lens[i]? = some len) (hij : i < j) :
    (lens.take i).sum + len ≤ (lens.take j).sum := by
  have hstep : (lens.take (i + 1)).sum = (lens.take i).sum + len := by
    rw [List.take_add_one, hi, Option.toList_some, List.sum_append, List.sum_singleton]
  rw [← hstep]
  exact List.Sublist.sum_le_sum (List.take_sublist_take_left hij) fun _ _ => Nat.zero_le _

theorem daysBeforeYear_mono {y z : ℤ} (h : y ≤ z) : daysBeforeYear y ≤ daysBeforeYear z := by
  unfold daysBeforeYear
  omega

namespace Date

variable {c d : Date}

/-- The fields of a date, the greatest first. -/
def fields (d : Date) : List ℤ := [d.year, d.month, d.day]

theorem fields_lt_iff : c.fields < d.fields ↔ c.year < d.year ∨
    c.year = d.year ∧ (c.month < d.month ∨ c.month = d.month ∧ c.day < d.day) := by
  simp only [fields, List.cons_lt_cons_iff, Nat.cast_lt, Nat.cast_inj, List.not_lt_nil, and_false,
    or_false]

theorem fields_injective (h : c.fields = d.fields) : c = d := by
  obtain ⟨y, m, k⟩ := c
  obtain ⟨y', m', k'⟩ := d
  simpa [fields] using h

/-- A date that exists stands in a month of its year and at a day of this month. -/
theorem toDays_of_valid (h : d.valid = true) : ∃ i len,
    (monthLengths d.year)[i]? = some len ∧ d.month = i + 1 ∧ 1 ≤ d.day ∧ d.day ≤ len ∧
      d.toDays =
        daysBeforeYear d.year + ((monthLengths d.year).take i).sum + d.day - 1 - epoch := by
  simp only [valid, List.getD_eq_getElem?_getD, Bool.and_eq_true, decide_eq_true_eq] at h
  obtain ⟨⟨hmonth, hday⟩, hlen⟩ := h
  cases hfound : (monthLengths d.year)[d.month - 1]? with
  | none =>
    rw [hfound, Option.getD_none] at hlen
    omega
  | some len =>
    rw [hfound, Option.getD_some] at hlen
    refine ⟨d.month - 1, len, hfound, by omega, hday, hlen, ?_⟩
    rw [toDays, daysBeforeMonth, ← List.sum_eq_foldl]
    omega

/-- Dates that exist are counted in their order. -/
theorem toDays_lt_toDays (hc : c.valid = true) (hd : d.valid = true)
    (h : c.fields < d.fields) : c.toDays < d.toDays := by
  obtain ⟨i, len, hi, hmonth, hday, hlen, hcount⟩ := toDays_of_valid hc
  obtain ⟨j, len', hj, hmonth', hday', hlen', hcount'⟩ := toDays_of_valid hd
  rw [hcount, hcount']
  rcases fields_lt_iff.mp h with hyear | ⟨hyear, hmonths | ⟨hmonths, hdays⟩⟩
  -- The year before has ended.
  · have hlast := sum_take_add_le hi (List.getElem?_eq_some_iff.mp hi).1
    rw [List.take_length, sum_monthLengths] at hlast
    have hnext := daysBeforeYear_succ c.year
    have hmono := daysBeforeYear_mono (Int.add_one_le_of_lt hyear)
    split_ifs at hlast hnext <;> omega
  -- The month before has ended.
  · have hlast := sum_take_add_le hi (by omega : i < j)
    rw [hyear] at hlast ⊢
    omega
  · have hij : i = j := by omega
    rw [hyear, hij]
    omega

/-- Counts of days are in the order of their dates. -/
theorem fields_ofDays_lt {m n : ℤ} (h : m < n) : (ofDays m).fields < (ofDays n).fields := by
  rcases lt_trichotomy (ofDays m).fields (ofDays n).fields with hlt | heq | hgt
  · exact hlt
  · have hsame := congrArg toDays (fields_injective heq)
    rw [toDays_ofDays, toDays_ofDays] at hsame
    exact absurd hsame h.ne
  · have hback := toDays_lt_toDays (valid_ofDays n) (valid_ofDays m) hgt
    rw [toDays_ofDays, toDays_ofDays] at hback
    exact absurd hback h.asymm

end Date

end Calendar

namespace Timestamp

variable {s t : Timestamp}

/-- What a clock in UTC shows at an instant: the year, month and day, the hour, minute and second,
and the nanosecond. A leap second is second 60. -/
def clock (t : Timestamp) : List ℤ :=
  t.date.fields ++ [t.seconds % 86400 / 3600, t.seconds / 60 % 60,
    t.seconds % 60 + (t.nanos / 10 ^ 9 : ℕ), (t.nanos % 10 ^ 9 : ℕ)]

theorem order_eq_lt_iff : s.order t = .lt ↔
    s.seconds < t.seconds ∨ s.seconds = t.seconds ∧ s.nanos < t.nanos := by
  rw [order, Ordering.then_eq_lt, Int.compare_eq_lt, Int.compare_eq_eq, Nat.compare_eq_lt]

theorem order_eq_gt_iff : s.order t = .gt ↔ t.order s = .lt := by
  rw [order_eq_lt_iff, order, Ordering.then_eq_gt, Int.compare_eq_gt, Int.compare_eq_eq,
    Nat.compare_eq_gt, eq_comm]

theorem order_eq_eq_iff : s.order t = .eq ↔ s = t := by
  rw [order, Ordering.then_eq_eq, Int.compare_eq_eq, Nat.compare_eq_eq]
  constructor
  · rintro ⟨hseconds, hnanos⟩
    obtain ⟨m, n, hbounded⟩ := s
    cases hseconds
    cases hnanos
    rfl
  · rintro rfl
    exact ⟨rfl, rfl⟩

theorem clock_lt_clock (hs : s.OnClock) (ht : t.OnClock) (h : s.order t = .lt) :
    s.clock < t.clock := by
  unfold OnClock at hs ht
  have hsNanos := s.bounded
  have htNanos := t.bounded
  rw [order_eq_lt_iff] at h
  by_cases hday : s.seconds / 86400 < t.seconds / 86400
  · have hdate := Calendar.Date.fields_lt_iff.mp (Calendar.Date.fields_ofDays_lt hday)
    simp only [clock, Calendar.Date.fields, date, List.cons_append, List.cons_lt_cons_iff]
    omega
  · have hsame : s.seconds / 86400 = t.seconds / 86400 := by omega
    simp only [clock, Calendar.Date.fields, date, List.cons_append, List.nil_append,
      List.cons_lt_cons_iff, hsame, lt_irrefl, false_or, true_and]
    omega

/-- The order of instants that clocks show is that of their clocks, field by field. -/
theorem orders_clock (hs : s.OnClock) (ht : t.OnClock) : Orders (s.order t) s.clock t.clock := by
  have hcases : s.order t = .lt ∧ s.clock < t.clock ∨ s.order t = .eq ∧ s.clock = t.clock ∨
      s.order t = .gt ∧ t.clock < s.clock := by
    cases h : s.order t with
    | lt => exact .inl ⟨rfl, clock_lt_clock hs ht h⟩
    | eq => exact .inr (.inl ⟨rfl, congrArg clock (order_eq_eq_iff.mp h)⟩)
    | gt => exact .inr (.inr ⟨rfl, clock_lt_clock ht hs (order_eq_gt_iff.mp h)⟩)
  obtain ⟨ho, hclock⟩ | ⟨ho, hclock⟩ | ⟨ho, hclock⟩ := hcases
  · rw [ho]
    exact ⟨iff_of_true rfl hclock, iff_of_false nofun hclock.ne, iff_of_false nofun hclock.asymm⟩
  · rw [ho, hclock]
    exact ⟨iff_of_false nofun (lt_irrefl _), iff_of_true rfl rfl, iff_of_false nofun (lt_irrefl _)⟩
  · rw [ho]
    exact ⟨iff_of_false nofun hclock.asymm, iff_of_false nofun hclock.ne', iff_of_true rfl hclock⟩

/-- The middle of the leap second at the end of 2016. -/
example : clock ⟨1483228799, 1500000000, by decide⟩ = [2016, 12, 31, 23, 59, 60, 500000000] := by
  decide +kernel

end Timestamp

end EntityStore
