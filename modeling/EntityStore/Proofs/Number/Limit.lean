import EntityStore.Proofs.Number.Digits
import EntityStore.Proofs.Number.Nearest

/-! Whole numbers about 2^63, where 64-bit integers end, as floats. -/
namespace EntityStore

namespace Binary64

/-- The place of 2^63 among the magnitudes. -/
def limitRank : Nat := 1086 * binade

variable {negative : Bool} {m : ℕ}

theorem rank_ofRatio_one (negative : Bool) (h0 : m ≠ 0) :
    ∃ k, k = roundHalfEven (scaleRatio m 1 (52 - m.log2)).1 (scaleRatio m 1 (52 - m.log2)).2 ∧
      binade ≤ k ∧ k ≤ 2 * binade ∧
      (ofRatio negative m 1).rank.val = min ((m.log2 + 1022) * binade + k) infinityRank := by
  obtain ⟨hlo, hhi, -⟩ := significand_bounds h0
  refine ⟨_, rfl, hlo, hhi, ?_⟩
  rw [ofRatio_one negative h0]
  rfl

/-- The integers of 64 bits that are rounded to 2^63 are those from half a step below it on. -/
theorem rank_ofRatio_le (negative : Bool) (h : m ≤ 2 ^ 63) :
    (ofRatio negative m 1).rank.val ≤ limitRank ∧
      ((ofRatio negative m 1).rank.val = limitRank ↔ 2 ^ 63 - 512 ≤ m) := by
  by_cases h0 : m = 0
  · have hrank : (ofRatio negative m 1).rank.val = 0 := by
      rw [h0]
      rfl
    unfold limitRank binade
    omega
  obtain ⟨k, hk, hlo, hhi, hrank⟩ := rank_ofRatio_one negative h0
  rw [hrank]
  unfold limitRank infinityRank at *
  rcases lt_trichotomy m.log2 62 with hlog | hlog | hlog
  · have hlt : m < 2 ^ 62 := (Nat.log2_lt h0).mp hlog
    have hmul := Nat.mul_le_mul_right binade (Nat.add_le_add_right (Nat.lt_succ_iff.mp hlog) 1022)
    unfold binade at *
    omega
  · have hhalf : m < 2 ^ 63 := (Nat.log2_lt h0).mp (by omega)
    have hscale : scaleRatio m 1 (52 - (62 : ℕ)) = (m, 1024) := rfl
    rw [hlog] at hk ⊢
    rw [hscale, roundHalfEven] at hk
    unfold binade at *
    dsimp only at hk
    split_ifs at hk <;> omega
  · have hle : 2 ^ 63 ≤ m := (Nat.le_log2 h0).mp hlog
    cases le_antisymm h hle
    rw [hk]
    decide

/-- The whole numbers from 2^63 on that are rounded to it are those up to half a step above it. -/
theorem limitRank_le_rank (negative : Bool) (h : 2 ^ 63 ≤ m) :
    limitRank ≤ (ofRatio negative m 1).rank.val ∧
      ((ofRatio negative m 1).rank.val = limitRank ↔ m ≤ 2 ^ 63 + 1024) := by
  have h0 : m ≠ 0 := by omega
  obtain ⟨k, hk, hlo, hhi, hrank⟩ := rank_ofRatio_one negative h0
  have hlog : 63 ≤ m.log2 := (Nat.le_log2 h0).mpr h
  rw [hrank]
  unfold limitRank infinityRank at *
  by_cases hbinade : m < 2 ^ 64
  · have hlog : m.log2 = 63 := by
      have hlt := (Nat.log2_lt h0).mpr hbinade
      omega
    have hscale : scaleRatio m 1 (52 - (63 : ℕ)) = (m, 2048) := rfl
    rw [hlog] at hk ⊢
    rw [hscale, roundHalfEven] at hk
    unfold binade at *
    dsimp only at hk
    split_ifs at hk <;> omega
  · have hlog : 64 ≤ m.log2 := (Nat.le_log2 h0).mpr (not_lt.mp hbinade)
    have hmul := Nat.mul_le_mul_right binade (Nat.add_le_add_right hlog 1022)
    unfold binade at *
    omega

theorem negative_ofRatio (negative : Bool) (num den : ℕ) :
    (ofRatio negative num den).negative = negative := by
  unfold ofRatio
  split_ifs <;> rfl

theorem isNaN_ofRank (negative : Bool) (rank : ℕ) : (ofRank negative rank).isNaN = false :=
  decide_eq_false (not_lt.mpr (min_le_right rank infinityRank))

theorem isNaN_ofRatio (negative : Bool) (num den : ℕ) :
    (ofRatio negative num den).isNaN = false := by
  unfold ofRatio
  split_ifs
  · exact isNaN_ofRank negative 0
  · exact isNaN_ofRank negative _

end Binary64

namespace Numeral

variable {cs ds : List Char} {n : ℤ}

/-- A text of digits behind an optional sign, and the integer that it denotes. -/
inductive Denotes : List Char → ℤ → Prop
  | plain {ds : List Char} (hne : ds ≠ []) (hds : ∀ d ∈ ds, d.isDigit = true) :
      Denotes ds (value ds)
  | plus {ds : List Char} (hne : ds ≠ []) (hds : ∀ d ∈ ds, d.isDigit = true) :
      Denotes ('+' :: ds) (value ds)
  | minus {ds : List Char} (hne : ds ≠ []) (hds : ∀ d ∈ ds, d.isDigit = true) :
      Denotes ('-' :: ds) (-value ds)

theorem splitSign_of_digits (hne : ds ≠ []) (hds : ∀ d ∈ ds, d.isDigit = true) :
    splitSign ds = (false, ds) := by
  obtain ⟨d, ds, rfl⟩ := List.exists_cons_of_ne_nil hne
  have hd := hds d List.mem_cons_self
  unfold splitSign
  split
  next heq =>
    cases heq
    cases hd
  next heq =>
    cases heq
    cases hd
  next => rfl

/-- A numeral is its sign and its digits. -/
theorem Denotes.splitSign (h : Denotes cs n) : ∃ negative ds, splitSign cs = (negative, ds) ∧
    ds ≠ [] ∧ (∀ d ∈ ds, d.isDigit = true) ∧
      n = if negative then -(value ds : ℤ) else value ds := by
  cases h with
  | plain hne hds => exact ⟨false, cs, splitSign_of_digits hne hds, hne, hds, rfl⟩
  | @plus ds hne hds => exact ⟨false, ds, rfl, hne, hds, rfl⟩
  | @minus ds hne hds => exact ⟨true, ds, rfl, hne, hds, rfl⟩

theorem Denotes.integer? (h : Denotes cs n) : integer? cs = some n := by
  obtain ⟨negative, ds, hsplit, hne, hds, rfl⟩ := h.splitSign
  have hguard : (ds.isEmpty || !ds.all Char.isDigit) = false := by
    rw [List.all_eq_true.mpr hds, List.isEmpty_eq_false_iff.mpr hne]
    rfl
  unfold Numeral.integer?
  rw [hsplit]
  dsimp only
  rw [hguard, if_neg Bool.false_ne_true]

theorem toLower_of_isDigit {d : Char} (hd : d.isDigit = true) : d.toLower = d := by
  have hle : d.val.toNat ≤ 57 := (Char.isDigit_iff_toNat.mp hd).2
  unfold Char.toLower
  refine dif_neg fun hcapital => ?_
  have hge : 65 ≤ d.val.toNat := UInt32.le_iff_toNat_le.mp hcapital.1
  omega

/-- Digits are no word for infinity or NaN. -/
theorem map_toLower_ne_of_digits (hne : ds ≠ []) (hds : ∀ d ∈ ds, d.isDigit = true) {c : Char}
    (hc : c.isDigit = false) (rest : List Char) : ds.map Char.toLower ≠ c :: rest := by
  obtain ⟨d, ds, rfl⟩ := List.exists_cons_of_ne_nil hne
  have hd := hds d List.mem_cons_self
  rw [List.map_cons, toLower_of_isDigit hd]
  intro heq
  cases heq
  rw [hd] at hc
  cases hc

/-- Digits denote a whole number to a float as well, with the sign in front of them. -/
theorem binary64?_of_splitSign {negative : Bool} (hsplit : splitSign cs = (negative, ds))
    (hne : ds ≠ []) (hds : ∀ d ∈ ds, d.isDigit = true) :
    binary64? cs = some (ofScientific negative (value ds) 0) := by
  have hword (c : Char) (rest : List Char) (hc : c.isDigit = false) :
      ds.map Char.toLower ≠ c :: rest := map_toLower_ne_of_digits hne hds hc rest
  have hinf : ¬ (ds.map Char.toLower = "inf".toList ∨ ds.map Char.toLower = "infinity".toList) :=
    not_or.mpr ⟨hword 'i' _ rfl, hword 'i' _ rfl⟩
  have hnan : ds.map Char.toLower ≠ "nan".toList := hword 'n' _ rfl
  unfold binary64?
  rw [hsplit]
  dsimp only
  rw [if_neg hinf, if_neg hnan, spanDigits_of_digits hds]
  dsimp only
  rw [List.isEmpty_eq_false_iff.mpr hne, List.append_nil]
  rfl

/-- A whole number with too many digits is infinity, else it is rounded. -/
theorem ofScientific_zero (negative : Bool) {c : ℕ} (hc : c ≠ 0) :
    ofScientific negative c 0 = if 310 < (Decimal.digits c).length then .infinity negative
      else .ofRatio negative c 1 := by
  have hpoint : ¬ (c = 0 ∨ ((Decimal.digits c).length : ℤ) + 0 < -330) := by omega
  have hten : Decimal.powTen 0 = (1, 1) := rfl
  unfold ofScientific
  dsimp only
  rw [if_neg hpoint, hten, Nat.mul_one, Int.add_zero]
  split_ifs <;> first | rfl | omega

/-- Numerals beyond 2^63 on either side as floats: those up to half a step beyond are read as it. -/
theorem Denotes.binary64? (h : Denotes cs n) (hn : 2 ^ 63 ≤ n.natAbs) : ∃ x,
    binary64? cs = some x ∧ x.negative = decide (n < 0) ∧ x.isNaN = false ∧
      Binary64.limitRank ≤ x.rank.val ∧
      (x.rank.val = Binary64.limitRank ↔ n.natAbs ≤ 2 ^ 63 + 1024) := by
  obtain ⟨negative, ds, hsplit, hne, hds, rfl⟩ := h.splitSign
  refine ⟨_, binary64?_of_splitSign hsplit hne hds, ?_⟩
  have habs : (if negative then -(value ds : ℤ) else value ds).natAbs = value ds := by
    cases negative <;> simp
  rw [habs] at hn ⊢
  have hsign : decide ((if negative then -(value ds : ℤ) else value ds) < 0) = negative := by
    cases negative with
    | false => simp
    | true => simpa using (by omega : 0 < value ds)
  rw [hsign, ofScientific_zero negative (by omega)]
  split_ifs with hlength
  · have hmany : 20 < (Decimal.digits (value ds)).length := by omega
    have hge : 10 ^ 20 ≤ value ds := Decimal.le_of_lt_length_digits (by decide) hmany
    have hfar : ¬ value ds ≤ 2 ^ 63 + 1024 := by omega
    have hrank : Binary64.limitRank < Binary64.infinityRank := by decide
    exact ⟨rfl, Binary64.isNaN_ofRank _ _, hrank.le, iff_of_false hrank.ne' hfar⟩
  · obtain ⟨hle, hiff⟩ := Binary64.limitRank_le_rank negative hn
    exact ⟨Binary64.negative_ofRatio _ _ _, Binary64.isNaN_ofRatio _ _ _, hle, hiff⟩

end Numeral

end EntityStore
