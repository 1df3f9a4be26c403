import EntityStore.Number.Numeral
import Mathlib.Algebra.Order.Ring.Nat

/-! Decimal digits: the digits of a whole number denote it, also behind idle zeros. -/
namespace EntityStore

namespace Numeral

theorem valueFrom_eq_ofDigitChars (n : Nat) (cs : List Char) :
    valueFrom n cs = Nat.ofDigitChars 10 cs n := by
  induction cs generalizing n with
  | nil => rfl
  | cons c cs ih => exact ih _

theorem valueFrom_append (n : Nat) (cs ds : List Char) :
    valueFrom n (cs ++ ds) = valueFrom (valueFrom n cs) ds := by
  simp only [valueFrom_eq_ofDigitChars, Nat.ofDigitChars_append]

@[simp] theorem value_digits (n : Nat) : value (Decimal.digits n) = n := by
  rw [value, valueFrom_eq_ofDigitChars, Decimal.digits, Nat.ofDigitChars_ten_toDigits]

@[simp] theorem value_zeros_append (k : Nat) (cs : List Char) :
    value (Decimal.zeros k ++ cs) = value cs := by
  rw [value, valueFrom_append, valueFrom_eq_ofDigitChars 0, Decimal.zeros,
    Nat.ofDigitChars_replicate_zero, Nat.mul_zero, value]

theorem spanDigits_of_digits {ds : List Char} (hds : ∀ c ∈ ds, c.isDigit = true) :
    spanDigits ds = (ds, []) := by
  have htake : (ds ++ []).takeWhile Char.isDigit = ds ++ [] := List.takeWhile_append_of_pos hds
  have hdrop : (ds ++ []).dropWhile Char.isDigit = [] := List.dropWhile_append_of_pos hds
  rw [List.append_nil] at htake hdrop
  rw [spanDigits, htake, hdrop]

theorem spanDigits_append_cons {ds : List Char} (hds : ∀ c ∈ ds, c.isDigit = true) {c : Char}
    (hc : c.isDigit = false) (cs : List Char) : spanDigits (ds ++ c :: cs) = (ds, c :: cs) := by
  rw [spanDigits, List.takeWhile_append_of_pos hds, List.dropWhile_append_of_pos hds,
    List.takeWhile_cons_of_neg (by simp [hc]), List.dropWhile_cons_of_neg (by simp [hc]),
    List.append_nil]

/-- Zeros behind the digits of a number scale it by a power of ten. -/
theorem value_append_zeros (cs : List Char) (k : Nat) :
    value (cs ++ Decimal.zeros k) = 10 ^ k * value cs := by
  rw [value, valueFrom_append, valueFrom_eq_ofDigitChars _ (Decimal.zeros k), Decimal.zeros,
    Nat.ofDigitChars_replicate_zero, value]

end Numeral

namespace Decimal

@[simp] theorem length_zeros (k : Nat) : (zeros k).length = k := List.length_replicate

theorem isDigit_of_mem_zeros {k : Nat} {c : Char} (h : c ∈ zeros k) : c.isDigit = true := by
  rw [List.eq_of_mem_replicate h]
  rfl

theorem isDigit_of_mem_digits {n : Nat} {c : Char} (h : c ∈ digits n) : c.isDigit = true :=
  Nat.isDigit_of_mem_toDigits (by decide) (by decide) h

theorem length_digits_le {n k : Nat} (hk : 0 < k) (h : n < 10 ^ k) : (digits n).length ≤ k :=
  (Nat.length_toDigits_le_iff (by decide) hk).mpr h

theorem le_of_lt_length_digits {n k : Nat} (hk : 0 < k) (h : k < (digits n).length) :
    10 ^ k ≤ n := Nat.not_lt.mp fun hlt => absurd (length_digits_le hk hlt) (Nat.not_le.mpr h)

end Decimal

end EntityStore
