import EntityStore.Proofs.Entity.Record
import EntityStore.Proofs.Number.Limit
import EntityStore.Proofs.Query.Comparison

/-! Integers and durations against numerals of any length: exact, except where both are rounded to
the same end of the 64-bit integers. -/
namespace EntityStore

/-- The whole number that a value stands for where it is compared as one. -/
inductive Value.Counts : Value → ℤ → Prop
  | integer (n : Int64) : Counts (.integer n) n.toInt
  | duration (d : Span) : Counts (.duration d) d.milliseconds

/-- A 64-bit integer and an integer past its range that the same end of the range is the nearest
float to. -/
def Blurred (m n : ℤ) : Prop :=
  2 ^ 63 - 512 ≤ m ∧ 2 ^ 63 ≤ n ∧ n ≤ 2 ^ 63 + 1024 ∨
    m ≤ 512 - 2 ^ 63 ∧ -2 ^ 63 - 1024 ≤ n ∧ n < -2 ^ 63

instance (m n : ℤ) : Decidable (Blurred m n) := inferInstanceAs (Decidable (_ ∨ _))

theorem Value.Counts.bounded {v : Value} {m : ℤ} (h : v.Counts m) : -2 ^ 63 ≤ m ∧ m < 2 ^ 63 := by
  cases h with
  | integer n => exact ⟨n.le_toInt, n.toInt_lt⟩
  | duration d =>
    have hbounded := d.milliseconds_bounded
    omega

theorem Value.Counts.compareLiteral {v : Value} {m : ℤ} (h : v.Counts m) (literal : String) :
    v.compareLiteral literal = Value.compareInteger m literal := by
  cases h <;> rfl

namespace Binary64

variable {m n : ℤ} {x : Binary64}

theorem negative_ofInt (m : ℤ) : (ofInt m).negative = decide (m < 0) := negative_ofRatio _ _ _

/-- A 64-bit integer against a float at 2^63 or beyond it, on either side. -/
theorem compare?_ofInt (hm : -2 ^ 63 ≤ m ∧ m < 2 ^ 63) (hn : n < -2 ^ 63 ∨ 2 ^ 63 ≤ n)
    (hnegative : x.negative = decide (n < 0)) (hnan : x.isNaN = false)
    (hle : limitRank ≤ x.rank.val) (heq : x.rank.val = limitRank ↔ n.natAbs ≤ 2 ^ 63 + 1024) :
    (ofInt m).compare? x = some (compare (if Blurred m n then n else m) n) := by
  have hnan' : (ofInt m).isNaN = false := isNaN_ofRatio _ _ _
  obtain ⟨hle', heq'⟩ : (ofInt m).rank.val ≤ limitRank ∧
      ((ofInt m).rank.val = limitRank ↔ 2 ^ 63 - 512 ≤ m.natAbs) :=
    rank_ofRatio_le _ (by omega)
  have hpos : 0 < limitRank := by decide
  unfold compare? place
  rw [hnan, hnan', Bool.or_self, if_neg Bool.false_ne_true, negative_ofInt, hnegative,
    Option.some_inj]
  simp only [decide_eq_true_eq]
  by_cases hblurred : Blurred m n
  · rw [if_pos hblurred, Int.compare_eq_eq.mpr rfl, Int.compare_eq_eq]
    unfold Blurred at hblurred
    split_ifs <;> omega
  · rw [if_neg hblurred]
    unfold Blurred at hblurred
    rcases hn with hn | hn
    · have hgt : n < m := by omega
      rw [Int.compare_eq_gt.mpr hgt, Int.compare_eq_gt]
      split_ifs <;> omega
    · have hlt : m < n := by omega
      rw [Int.compare_eq_lt.mpr hlt, Int.compare_eq_lt]
      split_ifs <;> omega

end Binary64

section Numerals

variable {m n : ℤ} {literal : String}

/-- A 64-bit integer against a numeral: as the integers themselves, or as the same one where they
are blurred. -/
theorem Value.compareInteger_of_denotes (hm : -2 ^ 63 ≤ m ∧ m < 2 ^ 63)
    (hn : Numeral.Denotes (Text.trim literal.toList) n) :
    Value.compareInteger m literal = some (compare (if Blurred m n then n else m) n) := by
  unfold compareInteger Literal.integer?
  rw [hn.integer?, Option.bind_some]
  by_cases hrange : -2 ^ 63 ≤ n ∧ n < 2 ^ 63
  · obtain ⟨i, hi⟩ := Value.exists_int64? hrange
    have hsharp : ¬ Blurred m n := by
      unfold Blurred
      omega
    rw [hi, if_neg hsharp]
    dsimp only
    rw [(Value.toInt_of_int64? hi).2]
  · have hnone : Numeral.int64? n = none := if_neg hrange
    obtain ⟨x, hx, hnegative, hnan, hle, heq⟩ := hn.binary64? (by omega)
    rw [hnone]
    dsimp only
    rw [Value.compareFloat, Literal.float?, hx, Option.bind_some]
    exact Binary64.compare?_ofInt hm (by omega) hnegative hnan hle heq

/-- A clause that compares an integer or a duration with a numeral of any length says of them what
its operator does, and takes them for equal where they are blurred. -/
theorem Clause.holds_of_counts {c : Clause} {e : Entity} {v : Value}
    (hsubject : c.subject ≠ idField ∧ c.subject ≠ kindField) (hv : e.get? c.subject = some v)
    (hm : v.Counts m) (hn : Numeral.Denotes (Text.trim c.literal.text.toList) n) :
    (¬ Blurred m n → (c.holds e = true ↔ c.op.Relates m n)) ∧
      (Blurred m n → (c.holds e = true ↔ c.op.Relates n n)) := by
  have hcompare := (hm.compareLiteral _).trans (Value.compareInteger_of_denotes hm.bounded hn)
  have hholds := Clause.holds_iff_relates hsubject hv hcompare (orders_compare _ _)
  constructor
  · intro hsharp
    rwa [if_neg hsharp] at hholds
  · intro hblurred
    rwa [if_pos hblurred] at hholds

/-- A link with the greatest bandwidth of 64 bits. -/
def widestLink : Entity :=
  ⟨"cd613e30-d8f1-4adf-91b7-584a2265b1f5", .networkLink,
    [("bandwidth", .integer 9223372036854775807)]⟩

theorem reachable_widestLink : widestLink.Reachable := by
  have hid : some "cd613e30-d8f1-4adf-91b7-584a2265b1f5" = none →
      Id.isUuid4 "".toList = true := nofun
  have hconstruct : Entity.construct .networkLink (some "cd613e30-d8f1-4adf-91b7-584a2265b1f5") ""
      [("bandwidth", .integer 9223372036854775807)] = .ok (widestLink, []) := rfl
  exact .construct hid hconstruct

/-- The numeral one past the end of the range. -/
theorem denotes_limit :
    Numeral.Denotes (Text.trim "9223372036854775808".toList) 9223372036854775808 := by
  have hdigits : ∀ d ∈ "9223372036854775808".toList, d.isDigit = true := List.all_eq_true.mp rfl
  exact .plain (by decide) hdigits

theorem Clause.holds_widestLink :
    Clause.holds ⟨"bandwidth", .lt, .quoted " +9223372036854776833 "⟩ widestLink = true ∧
      Clause.holds ⟨"bandwidth", .lt, .bare "9223372036854775808"⟩ widestLink = false := by
  have hsubject : "bandwidth" ≠ idField ∧ "bandwidth" ≠ kindField := by decide
  have hcounts : (Value.integer 9223372036854775807).Counts 9223372036854775807 := .integer _
  have hfar : Numeral.Denotes (Text.trim " +9223372036854776833 ".toList) 9223372036854776833 := by
    have hdigits : ∀ d ∈ "9223372036854776833".toList, d.isDigit = true := List.all_eq_true.mp rfl
    exact .plus (by decide) hdigits
  constructor
  · have hholds := (Clause.holds_of_counts
      (c := ⟨"bandwidth", .lt, .quoted " +9223372036854776833 "⟩) (e := widestLink) hsubject rfl
      hcounts hfar).1 (by decide)
    exact hholds.mpr (by decide : (9223372036854775807 : ℤ) < 9223372036854776833)
  · have hholds := (Clause.holds_of_counts
      (c := ⟨"bandwidth", .lt, .bare "9223372036854775808"⟩) (e := widestLink) hsubject rfl
      hcounts denotes_limit).2 (by decide)
    rw [← Bool.not_eq_true, hholds]
    exact lt_irrefl (9223372036854775808 : ℤ)

/-- A numeral one past the greatest 64-bit integer is taken for equal to it. -/
theorem Clause.not_holds_exact :
    ¬ ∀ (c : Clause) (e : Entity) (v : Value) (m n : ℤ), e.Reachable →
      c.subject ≠ idField ∧ c.subject ≠ kindField → e.get? c.subject = some v → v.Counts m →
      Numeral.Denotes (Text.trim c.literal.text.toList) n →
      (c.holds e = true ↔ c.op.Relates m n) := by
  intro hexact
  have hholds : Clause.holds ⟨"bandwidth", .eq, .bare "9223372036854775808"⟩ widestLink = true := by
    decide +kernel
  have hequal : (9223372036854775807 : ℤ) = 9223372036854775808 :=
    (hexact ⟨"bandwidth", .eq, .bare "9223372036854775808"⟩ widestLink _ _ _ reachable_widestLink
      (by decide) rfl (.integer 9223372036854775807) denotes_limit).mp hholds
  exact absurd hequal (by decide)

end Numerals

end EntityStore
