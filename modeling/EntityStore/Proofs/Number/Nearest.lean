import EntityStore.Number.Binary64
import Mathlib.Algebra.Order.Field.Power
import Mathlib.Algebra.Order.Field.Rat
import Mathlib.Tactic.Linarith
import Mathlib.Tactic.NormNum
import Mathlib.Tactic.Positivity
import Mathlib.Tactic.Ring

/-! The number that a whole number of 64 bits is rounded to is the nearest of all. -/
namespace EntityStore.Binary64

/-- The number that a finite one stands for. -/
def value (x : Binary64) : ℚ :=
  (if x.negative then -1 else 1) * (x.significand * 2 ^ x.exponent)

/-- Rounding to nearest: no finite number is nearer, and if another is as near then the significand
is even. -/
structure Nearest (q : ℚ) (x : Binary64) : Prop where
  finite : x.isFinite = true
  negative_eq : x.negative = decide (q < 0)
  nearest : ∀ y : Binary64, y.isFinite = true → |x.value - q| ≤ |y.value - q|
  even : ∀ y : Binary64, y.isFinite = true → y.value ≠ x.value →
    |y.value - q| = |x.value - q| → x.significand % 2 = 0

section Quotients

variable {num den : ℕ}

theorem quotient_eq (hden : 0 < den) :
    (num : ℚ) / den = (num / den : ℕ) + (num % den : ℕ) / den := by
  have hpos : (0 : ℚ) < den := by exact_mod_cast hden
  have hsum : (num : ℚ) = den * (num / den : ℕ) + (num % den : ℕ) := by
    exact_mod_cast (Nat.div_add_mod num den).symm
  rw [div_eq_iff hpos.ne', add_mul, div_mul_cancel₀ _ hpos.ne', mul_comm]
  exact hsum

/-- A whole number less than half away is the nearest. Half away, the even one is taken. -/
theorem roundHalfEven_error (num : ℕ) (hden : 0 < den) :
    |(roundHalfEven num den : ℚ) - num / den| < 1 / 2 ∨
      |(roundHalfEven num den : ℚ) - num / den| = 1 / 2 ∧ roundHalfEven num den % 2 = 0 := by
  have hpos : (0 : ℚ) < den := by exact_mod_cast hden
  have hnonneg : (0 : ℚ) ≤ ((num % den : ℕ) : ℚ) / den := by positivity
  have hlt : ((num % den : ℕ) : ℚ) / den < 1 := by
    rw [div_lt_one hpos]
    exact_mod_cast Nat.mod_lt num hden
  rw [quotient_eq hden]
  unfold roundHalfEven
  dsimp only
  split_ifs with hdown hup
  · left
    have hhalf : ((num % den : ℕ) : ℚ) / den < 1 / 2 := by
      rw [div_lt_div_iff₀ hpos two_pos]
      exact_mod_cast (by omega : num % den * 2 < 1 * den)
    rw [sub_add_cancel_left, abs_neg, abs_of_nonneg hnonneg]
    exact hhalf
  · left
    have hhalf : (1 : ℚ) / 2 < ((num % den : ℕ) : ℚ) / den := by
      rw [div_lt_div_iff₀ two_pos hpos]
      exact_mod_cast (by omega : 1 * den < num % den * 2)
    rw [abs_lt]
    push_cast
    constructor <;> linarith
  · right
    have hhalf : ((num % den : ℕ) : ℚ) / den = 1 / 2 := by
      rw [div_eq_div_iff hpos.ne' two_ne_zero]
      exact_mod_cast (by omega : num % den * 2 = 1 * den)
    refine ⟨?_, by omega⟩
    rw [hhalf]
    rcases Nat.mod_two_eq_zero_or_one (num / den) with hparity | hparity
    · rw [hparity, Nat.add_zero, sub_add_cancel_left, abs_neg]
      norm_num
    · rw [hparity]
      push_cast
      rw [add_sub_add_left_eq_sub]
      norm_num

/-- No whole number is nearer than one at most half away, and one as near is half away. -/
theorem abs_sub_le_of_error {k : ℤ} {z : ℚ} (h : |(k : ℚ) - z| ≤ 1 / 2) (j : ℤ) :
    |(k : ℚ) - z| ≤ |(j : ℚ) - z| ∧ (j ≠ k → |(j : ℚ) - z| = |(k : ℚ) - z| →
      |(k : ℚ) - z| = 1 / 2) := by
  by_cases hj : j = k
  · rw [hj]
    exact ⟨le_rfl, fun hne => absurd rfl hne⟩
  · have hapart : (1 : ℚ) ≤ |(j : ℚ) - k| := by
      have hint : 1 ≤ |j - k| := Int.one_le_abs (sub_ne_zero.mpr hj)
      exact_mod_cast hint
    have htriangle := abs_sub_le (j : ℚ) z k
    rw [abs_sub_comm z] at htriangle
    exact ⟨by linarith, fun _ heq => by linarith⟩

theorem scaleRatio_pos (m : ℕ) (q : ℤ) : 0 < (scaleRatio m 1 q).2 := by
  unfold scaleRatio
  split_ifs
  · exact Nat.one_pos
  · exact Nat.mul_pos Nat.one_pos (Nat.two_pow_pos _)

theorem scaleRatio_eq (m : ℕ) (q : ℤ) :
    ((scaleRatio m 1 q).1 : ℚ) / (scaleRatio m 1 q).2 = m * 2 ^ q := by
  unfold scaleRatio
  split_ifs with hq
  · have hpow : (2 : ℚ) ^ q = 2 ^ q.toNat := by
      rw [← zpow_natCast, Int.toNat_of_nonneg hq]
    rw [hpow]
    push_cast [Nat.pow_eq]
    rw [div_one]
  · have hpow : (2 : ℚ) ^ q = (2 ^ (-q).toNat)⁻¹ := by
      rw [← zpow_natCast, Int.toNat_of_nonneg (by omega), zpow_neg, inv_inv]
    rw [hpow]
    push_cast [Nat.pow_eq]
    rw [one_mul, div_eq_mul_inv]

end Quotients

section Values

variable {x y : Binary64} {q : ℤ}

theorem significand_lt (x : Binary64) : x.significand < 2 ^ 53 := by
  have hmod : x.rank.val % binade < binade := Nat.mod_lt _ (by decide)
  unfold significand
  unfold binade at *
  split_ifs <;> omega

theorem abs_value (x : Binary64) : |x.value| = x.significand * 2 ^ x.exponent := by
  have hnonneg : (0 : ℚ) ≤ x.significand * 2 ^ x.exponent := by positivity
  unfold value
  split_ifs
  · rw [neg_one_mul, abs_neg, abs_of_nonneg hnonneg]
  · rw [one_mul, abs_of_nonneg hnonneg]

/-- From a power of two on, numbers are multiples of the unit in its last place. -/
theorem exists_multiple (h : (2 : ℚ) ^ (q + 52) ≤ |x.value|) : ∃ j : ℤ, x.value = j * 2 ^ q := by
  have hsignificand : (x.significand : ℚ) < 2 ^ (53 : ℤ) := by
    exact_mod_cast x.significand_lt
  have hpow : (2 : ℚ) ^ (q + 52) < 2 ^ (53 + x.exponent) := by
    rw [zpow_add₀ two_ne_zero 53]
    refine h.trans_lt ?_
    rw [abs_value]
    exact mul_lt_mul_of_pos_right hsignificand (by positivity)
  -- A significand has 53 bits, so the exponent is not below the unit.
  have hle : q ≤ x.exponent := by
    have hlt := (zpow_lt_zpow_iff_right₀ (one_lt_two (α := ℚ))).mp hpow
    omega
  have hexponent : (2 : ℚ) ^ x.exponent = 2 ^ (x.exponent - q).toNat * 2 ^ q := by
    rw [← zpow_natCast, Int.toNat_of_nonneg (by omega), ← zpow_add₀ two_ne_zero, sub_add_cancel]
  refine ⟨(if x.negative then -1 else 1) * (x.significand * 2 ^ (x.exponent - q).toNat), ?_⟩
  unfold value
  rw [hexponent]
  push_cast
  split_ifs <;> ring

/-- The rank of a significand at an exponent, also where the significand is the first one past 53
bits. -/
theorem fields_ofRank {e k : ℕ} (he : e < 2044) (hlo : binade ≤ k) (hhi : k ≤ 2 * binade) :
    let x := ofRank false (e * binade + k)
    x.isFinite = true ∧ (x.significand = k ∧ x.exponent = e - 1074 ∨
      k = 2 * x.significand ∧ x.significand % 2 = 0 ∧ x.exponent = e - 1074 + 1) := by
  intro x
  have hrank : x.rank.val = e * binade + k := by
    show min (e * binade + k) infinityRank = e * binade + k
    unfold infinityRank binade at *
    omega
  have hnormal : ¬ x.rank.val < binade := by
    rw [hrank]
    omega
  unfold isFinite significand exponent
  simp only [if_neg hnormal]
  rw [hrank, decide_eq_true_eq]
  unfold infinityRank binade at *
  -- The first significand past 53 bits is the least one of the next binade.
  by_cases hk : k < 2 * 4503599627370496
  · exact ⟨by omega, .inl ⟨by omega, by omega⟩⟩
  · exact ⟨by omega, .inr ⟨by omega, by omega, by omega⟩⟩

theorem value_ofRank {e k : ℕ} (he : e < 2044) (hlo : binade ≤ k) (hhi : k ≤ 2 * binade) :
    (ofRank false (e * binade + k)).value = k * 2 ^ ((e : ℤ) - 1074) := by
  have hsign : (ofRank false (e * binade + k)).negative = false := rfl
  unfold value
  rw [hsign, if_neg Bool.false_ne_true, one_mul]
  obtain ⟨-, ⟨hsignificand, hexponent⟩ | ⟨hk, -, hexponent⟩⟩ := fields_ofRank he hlo hhi
  · rw [hsignificand, hexponent]
  · have hcast : (k : ℚ) = 2 * (ofRank false (e * binade + k)).significand := by exact_mod_cast hk
    rw [hexponent, zpow_add_one₀ two_ne_zero, hcast]
    ring

theorem value_negate (x : Binary64) : x.negate.value = -x.value := by
  have hfields : x.negate.significand = x.significand ∧ x.negate.exponent = x.exponent := ⟨rfl, rfl⟩
  unfold value
  rw [hfields.1, hfields.2]
  cases hsign : x.negative <;> simp [negate, hsign]

theorem negate_negate (x : Binary64) : x.negate.negate = x := by
  unfold negate
  simp only [Bool.not_not]

end Values

section Rounding

variable {x : Binary64}

/-- A multiple of a unit that is no more than half of it away is the nearest number: those before
the power of two that has the unit are farther away than this power, which is a multiple itself. -/
theorem nearest_of_error {m : ℚ} {k q : ℤ} (hfinite : x.isFinite = true)
    (hnegative : x.negative = false) (hvalue : x.value = k * 2 ^ q) (hm : (2 : ℚ) ^ (q + 52) ≤ m)
    (herror : |(k : ℚ) - m * 2 ^ (-q)| < 1 / 2 ∨
      |(k : ℚ) - m * 2 ^ (-q)| = 1 / 2 ∧ x.significand % 2 = 0) : x.Nearest m := by
  have hunit : (0 : ℚ) < 2 ^ q := by positivity
  have hdistance (j : ℤ) : |(j : ℚ) * 2 ^ q - m| = |(j : ℚ) - m * 2 ^ (-q)| * 2 ^ q := by
    rw [← abs_of_pos hunit, ← abs_mul, abs_of_pos hunit, sub_mul, mul_assoc m,
      ← zpow_add₀ two_ne_zero, neg_add_cancel, zpow_zero, mul_one]
  have hhalf : |(k : ℚ) - m * 2 ^ (-q)| ≤ 1 / 2 := herror.elim le_of_lt fun h => h.1.le
  have hmultiple (j : ℤ) : |x.value - m| ≤ |(j : ℚ) * 2 ^ q - m| := by
    rw [hvalue, hdistance, hdistance]
    exact mul_le_mul_of_nonneg_right (abs_sub_le_of_error hhalf j).1 hunit.le
  have hpower : (2 : ℚ) ^ (q + 52) = ((2 ^ 52 : ℤ) : ℚ) * 2 ^ q := by
    rw [zpow_add₀ two_ne_zero, mul_comm]
    norm_num
  have hbelow (y : Binary64) (hy : |y.value| < 2 ^ (q + 52)) : |x.value - m| < |y.value - m| := by
    have hfar : |(2 : ℚ) ^ (q + 52) - m| < |y.value - m| := by
      have hlt := (le_abs_self y.value).trans_lt hy
      rw [abs_of_nonpos (by linarith), abs_of_nonpos (by linarith)]
      linarith
    rw [hpower] at hfar
    exact (hmultiple _).trans_lt hfar
  refine ⟨hfinite, ?_, fun y _ => ?_, fun y _ hne heq => ?_⟩
  · have hpos : 0 < m := lt_of_lt_of_le (by positivity) hm
    rw [hnegative, decide_eq_false (not_lt.mpr hpos.le)]
  · by_cases hy : (2 : ℚ) ^ (q + 52) ≤ |y.value|
    · obtain ⟨j, hj⟩ := exists_multiple hy
      rw [hj]
      exact hmultiple j
    · exact (hbelow y (not_le.mp hy)).le
  · by_cases hy : (2 : ℚ) ^ (q + 52) ≤ |y.value|
    · obtain ⟨j, hj⟩ := exists_multiple hy
      have hjk : j ≠ k := by
        rintro rfl
        exact hne (hj.trans hvalue.symm)
      rw [hj, hvalue, hdistance, hdistance] at heq
      have htie := (abs_sub_le_of_error hhalf j).2 hjk (mul_right_cancel₀ hunit.ne' heq)
      rcases herror with hlt | ⟨-, heven⟩
      · exact absurd htie hlt.ne
      · exact heven
    · exact absurd heq (hbelow y (not_le.mp hy)).ne'

theorem log2Ratio_one {m : Nat} (hm : m ≠ 0) : log2Ratio m 1 = m.log2 := by
  have hle : 2 ^ m.log2 ≤ m := Nat.log2_self_le hm
  have hscaled : (scaleRatio m 1 (-(m.log2 : Int))).2 ≤ (scaleRatio m 1 (-(m.log2 : Int))).1 := by
    unfold scaleRatio
    split_ifs with hs
    · exact Nat.mul_pos (Nat.pos_of_ne_zero hm) (Nat.two_pow_pos _)
    · simpa using hle
  have hone : ((Nat.log2 1 : Nat) : Int) = 0 := by decide
  unfold log2Ratio
  dsimp only
  rw [hone, Int.sub_zero, if_pos hscaled]

/-- The significand that a whole number is rounded to, and how far it is away. -/
theorem significand_bounds {m : ℕ} (h0 : m ≠ 0) :
    let k := roundHalfEven (scaleRatio m 1 (52 - m.log2)).1 (scaleRatio m 1 (52 - m.log2)).2
    binade ≤ k ∧ k ≤ 2 * binade ∧
      (|(k : ℚ) - m * 2 ^ (52 - (m.log2 : ℤ))| < 1 / 2 ∨
        |(k : ℚ) - m * 2 ^ (52 - (m.log2 : ℤ))| = 1 / 2 ∧ k % 2 = 0) := by
  intro k
  have herror := roundHalfEven_error (scaleRatio m 1 (52 - m.log2)).1
    (scaleRatio_pos m (52 - m.log2))
  rw [scaleRatio_eq] at herror
  have hunit : (0 : ℚ) < 2 ^ (52 - (m.log2 : ℤ)) := by positivity
  have hlo : (binade : ℚ) ≤ m * 2 ^ (52 - (m.log2 : ℤ)) := by
    have hle : (2 : ℚ) ^ (m.log2 : ℤ) ≤ m := by
      exact_mod_cast Nat.log2_self_le h0
    calc (binade : ℚ) = 2 ^ (52 : ℤ) := by norm_num [binade]
      _ = 2 ^ (m.log2 : ℤ) * 2 ^ (52 - (m.log2 : ℤ)) := by
        rw [← zpow_add₀ two_ne_zero, add_sub_cancel]
      _ ≤ m * 2 ^ (52 - (m.log2 : ℤ)) := mul_le_mul_of_nonneg_right hle hunit.le
  have hhi : (m : ℚ) * 2 ^ (52 - (m.log2 : ℤ)) < 2 * binade := by
    have hlt : (m : ℚ) < 2 ^ ((m.log2 : ℤ) + 1) := by
      exact_mod_cast Nat.lt_log2_self (n := m)
    have hsum : (m.log2 : ℤ) + 1 + (52 - m.log2) = 53 := by omega
    calc (m : ℚ) * 2 ^ (52 - (m.log2 : ℤ))
        < 2 ^ ((m.log2 : ℤ) + 1) * 2 ^ (52 - (m.log2 : ℤ)) :=
          mul_lt_mul_of_pos_right hlt hunit
      _ = 2 ^ (53 : ℤ) := by rw [← zpow_add₀ two_ne_zero, hsum]
      _ = 2 * binade := by norm_num [binade]
  have hnear := abs_le.mp (herror.elim le_of_lt fun h => h.1.le)
  refine ⟨?_, ?_, herror⟩
  · have hlt : (binade : ℚ) < k + 1 := by linarith
    exact Nat.lt_succ_iff.mp (by exact_mod_cast hlt)
  · have hlt : (k : ℚ) < 2 * binade + 1 := by linarith
    exact Nat.lt_succ_iff.mp (by exact_mod_cast hlt)

theorem ofRatio_one (negative : Bool) {m : ℕ} (h0 : m ≠ 0) :
    ofRatio negative m 1 = ofRank negative ((m.log2 + 1022) * binade +
      roundHalfEven (scaleRatio m 1 (52 - m.log2)).1 (scaleRatio m 1 (52 - m.log2)).2) := by
  have hq : max ((m.log2 : ℤ) - 52) (-1074) = m.log2 - 52 := by omega
  have he : ((m.log2 : ℤ) - 52 + 1074).toNat = m.log2 + 1022 := by omega
  unfold ofRatio
  rw [if_neg h0]
  dsimp only
  rw [log2Ratio_one h0, hq, Int.neg_sub, he]

theorem nearest_ofRatio {m : ℕ} (h0 : m ≠ 0) (h : m < 2 ^ 64) : (ofRatio false m 1).Nearest m := by
  have hlog : m.log2 < 64 := (Nat.log2_lt h0).mpr h
  obtain ⟨hlo, hhi, herror⟩ := significand_bounds h0
  have hx := ofRatio_one false h0
  generalize hk : roundHalfEven (scaleRatio m 1 (52 - m.log2)).1
    (scaleRatio m 1 (52 - m.log2)).2 = k at hlo hhi herror hx
  have hunit : ((m.log2 + 1022 : ℕ) : ℤ) - 1074 = m.log2 - 52 := by omega
  have hvalue := value_ofRank (by omega : m.log2 + 1022 < 2044) hlo hhi
  obtain ⟨hfinite, hfields⟩ := fields_ofRank (by omega : m.log2 + 1022 < 2044) hlo hhi
  rw [hunit] at hvalue
  rw [hx]
  refine nearest_of_error (k := k) (q := m.log2 - 52) hfinite rfl hvalue ?_ ?_
  · rw [sub_add_cancel]
    exact_mod_cast Nat.log2_self_le h0
  · rw [neg_sub]
    refine herror.imp_right fun htie => ⟨htie.1, ?_⟩
    rcases hfields with ⟨hsignificand, -⟩ | ⟨-, heven, -⟩
    · rw [hsignificand]
      exact htie.2
    · exact heven

theorem ofRatio_true (num den : ℕ) : ofRatio true num den = (ofRatio false num den).negate := by
  unfold ofRatio
  split_ifs <;> rfl

theorem Nearest.negate {q : ℚ} (h : x.Nearest q) (hq : 0 < q) : x.negate.Nearest (-q) := by
  have hdistance (y : Binary64) : |y.value - -q| = |y.negate.value - q| := by
    rw [value_negate, ← abs_neg]
    ring_nf
  have hself : |x.negate.value - -q| = |x.value - q| := by rw [hdistance, negate_negate]
  refine ⟨h.finite, ?_, fun y hy => ?_, fun y hy hne heq => ?_⟩
  · have hx : x.negative = false := by
      rw [h.negative_eq, decide_eq_false (not_lt.mpr hq.le)]
    show (!x.negative) = _
    rw [hx, decide_eq_true (neg_lt_zero.mpr hq)]
    rfl
  · rw [hself, hdistance]
    exact h.nearest y.negate hy
  · rw [hself, hdistance] at heq
    refine h.even y.negate hy (fun hsame => hne ?_) heq
    rw [value_negate, ← hsame, value_negate, neg_neg]

/-- A whole number of 64 bits is rounded to the nearest number, ties to even. -/
theorem nearest_ofInt {n : ℤ} (h : n.natAbs < 2 ^ 64) : (ofInt n).Nearest n := by
  rcases lt_trichotomy n 0 with hn | rfl | hn
  · have hcast : (n : ℚ) = -(n.natAbs : ℚ) := by
      rw [Nat.cast_natAbs, abs_of_neg hn, Int.cast_neg, neg_neg]
    have habs : n.natAbs ≠ 0 := Int.natAbs_ne_zero.mpr hn.ne
    have hpos : (0 : ℚ) < n.natAbs := by exact_mod_cast Nat.pos_of_ne_zero habs
    unfold ofInt
    rw [decide_eq_true hn, ofRatio_true, hcast]
    exact (nearest_ofRatio habs h).negate hpos
  · have hzero : (ofInt 0).value = 0 := by
      unfold value
      simp [ofInt, ofRatio, zero, ofRank, significand, binade]
    have hfinite : (ofInt 0).isFinite = true := by decide
    refine ⟨hfinite, by decide, fun y _ => ?_, fun y _ _ _ => by decide⟩
    rw [hzero, Int.cast_zero, sub_zero, abs_zero]
    exact abs_nonneg _
  · have hcast : (n : ℚ) = (n.natAbs : ℚ) := by
      rw [Nat.cast_natAbs, abs_of_pos hn]
    have habs : n.natAbs ≠ 0 := Int.natAbs_ne_zero.mpr hn.ne'
    unfold ofInt
    rw [decide_eq_false (not_lt.mpr hn.le), hcast]
    exact nearest_ofRatio habs h

end Rounding

end EntityStore.Binary64
