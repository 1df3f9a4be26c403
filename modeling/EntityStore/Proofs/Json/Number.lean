import EntityStore.Proofs.Json.Basic
import EntityStore.Proofs.Number.Digits

/-! Numbers in JSON texts: what an integer is written as is read as this integer. -/
namespace EntityStore

namespace Decimal

theorem digits_ne_nil (n : Nat) : digits n ≠ [] := Nat.toDigits_ne_nil

/-- Only zero is written with a zero in front. -/
theorem head?_digits_ne_zero {n : Nat} (hn : n ≠ 0) : (digits n).head? ≠ some '0' := by
  induction n using Nat.strongRecOn with
  | _ n ih =>
    rcases Nat.lt_or_ge n 10 with hlt | hge
    · have hone : digits n = [n.digitChar] := Nat.toDigits_of_lt_base hlt
      rw [hone, List.head?_cons]
      intro hzero
      exact hn (Nat.digitChar_eq_zero.mp (Option.some.inj hzero))
    · have hmore : digits n = digits (n / 10) ++ [(n % 10).digitChar] :=
        Nat.toDigits_of_base_le (by decide) hge
      rw [hmore, List.head?_append_of_ne_nil _ (digits_ne_nil _)]
      exact ih (n / 10) (by omega) (by omega)

theorem mem_of_mem_dropWhile_reverse {c : Char} {cs : List Char} {p : Char → Bool}
    (h : c ∈ (cs.reverse.dropWhile p).reverse) : c ∈ cs :=
  List.mem_reverse.mp ((List.dropWhile_sublist p).mem (List.mem_reverse.mp h))

end Decimal

namespace Json

open Numeral

theorem spanDigits_digits (n : Nat) :
    spanDigits (Decimal.digits n) = (Decimal.digits n, []) :=
  spanDigits_of_digits fun _ => Decimal.isDigit_of_mem_digits

/-- Digits of a whole number are no fraction and have no idle zero in front. -/
theorem digits_plain (n : Nat) : ((Decimal.digits n).isEmpty ||
    ((Decimal.digits n).head? == some '0' && decide (1 < (Decimal.digits n).length))) = false := by
  have hne : (Decimal.digits n).isEmpty = false := by simpa using Decimal.digits_ne_nil n
  rw [hne, Bool.false_or]
  by_cases hn : n = 0
  · subst hn
    rfl
  · have hhead := Decimal.head?_digits_ne_zero hn
    rw [beq_eq_false_iff_ne.mpr hhead, Bool.false_and]

theorem number?_digits (n : Nat) :
    number? (Decimal.digits n) = whole? false (Decimal.digits n) := by
  unfold number?
  split
  next negative body hsign =>
    split at hsign
    next rest heq =>
      have hminus : Char.isDigit '-' = true :=
        Decimal.isDigit_of_mem_digits (n := n) (heq ▸ List.mem_cons_self)
      exact absurd hminus (by decide)
    next =>
      cases hsign
      simp only [spanDigits_digits, digits_plain, Bool.false_eq_true, if_false]

theorem number?_minus_digits (n : Nat) :
    number? ('-' :: Decimal.digits n) = whole? true (Decimal.digits n) := by
  unfold number?
  simp only [spanDigits_digits, digits_plain, Bool.false_eq_true, if_false]

/-- An integer of 64 bits, signed or not, is read back from its text. -/
theorem number?_ofInt {n : Int} (hlow : -(int64Limit : Int) ≤ n) (hhigh : n < unsignedLimit) :
    number? (Decimal.ofInt n) = some (int n) := by
  cases n with
  | ofNat n =>
    have hlt : n < unsignedLimit := by simpa using hhigh
    rw [Decimal.ofInt, number?_digits, whole?]
    simp [hlt]
  | negSucc n =>
    have hle : n + 1 ≤ int64Limit := by omega
    rw [Decimal.ofInt, number?_minus_digits, whole?]
    simp [hle]
    omega

section Characters

open Reader

/-- Characters that are read as one word. -/
def IsWord (cs : List Char) : Prop := ∀ c ∈ cs, isWordChar c = true

instance (cs : List Char) : Decidable (IsWord cs) :=
  decidable_of_iff (cs.all isWordChar = true) List.all_eq_true

theorem IsWord.of_isDigit {cs : List Char} (h : ∀ c ∈ cs, c.isDigit = true) : IsWord cs := by
  intro c hc
  simp [isWordChar, Char.isAlphanum, h c hc]

theorem isWord_digits (n : Nat) : IsWord (Decimal.digits n) :=
  .of_isDigit fun _ => Decimal.isDigit_of_mem_digits

theorem isWord_zeros (n : Nat) : IsWord (Decimal.zeros n) :=
  .of_isDigit fun _ => Decimal.isDigit_of_mem_zeros

theorem isWord_ofInt (n : Int) : IsWord (Decimal.ofInt n) := by
  cases n with
  | ofNat n => exact isWord_digits n
  | negSucc n => exact List.forall_mem_cons.mpr ⟨rfl, isWord_digits (n + 1)⟩

theorem isWord_sign (x : Binary64) : IsWord (Decimal.sign x) := by
  unfold Decimal.sign
  split_ifs <;> decide

theorem isWord_shortest (tie : Decimal.Tie) (x : Binary64) :
    IsWord (Decimal.shortest tie x).digits :=
  .of_isDigit fun _ h =>
    Decimal.isDigit_of_mem_digits (Decimal.mem_of_mem_dropWhile_reverse h)

theorem isWord_positional {s : Decimal.Shortest} (hs : IsWord s.digits) :
    IsWord (s.positional ['.', '0']) := by
  have htail : IsWord ['.', '0'] := by decide
  unfold Decimal.Shortest.positional IsWord
  dsimp only
  split_ifs
  · simp only [List.forall_mem_cons, List.forall_mem_append]
    exact ⟨rfl, rfl, isWord_zeros _, hs⟩
  · simp only [List.forall_mem_append]
    exact ⟨⟨hs, isWord_zeros _⟩, htail⟩
  · simp only [List.forall_mem_cons, List.forall_mem_append]
    exact ⟨fun c hc => hs c (List.mem_of_mem_take hc), rfl,
      fun c hc => hs c (List.mem_of_mem_drop hc)⟩

theorem isWord_scientific {s : Decimal.Shortest} (hs : IsWord s.digits) : IsWord s.scientific := by
  have hsign (p : Prop) [Decidable p] : isWordChar (if p then '-' else '+') = true := by
    split_ifs <;> rfl
  unfold Decimal.Shortest.scientific IsWord
  dsimp only
  simp only [List.forall_mem_cons, List.forall_mem_append]
  refine ⟨?_, rfl, hsign _, isWord_digits _⟩
  split
  next => exact List.forall_mem_singleton.mpr rfl
  next d heq => rwa [← heq]
  next d rest _ heq =>
    rw [heq] at hs
    obtain ⟨hd, hrest⟩ := List.forall_mem_cons.mp hs
    exact List.forall_mem_cons.mpr ⟨hd, List.forall_mem_cons.mpr ⟨rfl, hrest⟩⟩

theorem isWord_floatText (x : Binary64) : IsWord (floatText x) := by
  have hzero : IsWord ['0', '.', '0'] := by decide
  have hnull : IsWord "null".toList := by decide
  have hs := isWord_shortest .even x
  unfold floatText Decimal.numeral
  dsimp only
  split_ifs
  · exact List.forall_mem_append.mpr ⟨isWord_sign x, hzero⟩
  · exact List.forall_mem_append.mpr ⟨isWord_sign x, isWord_positional hs⟩
  · exact List.forall_mem_append.mpr ⟨isWord_sign x, isWord_scientific hs⟩
  · exact hnull

theorem ofInt_ne_nil (n : Int) : Decimal.ofInt n ≠ [] := by
  cases n with
  | ofNat n => exact Decimal.digits_ne_nil n
  | negSucc n => exact List.cons_ne_nil _ _

theorem floatText_ne_nil (x : Binary64) : floatText x ≠ [] := by
  unfold floatText Decimal.numeral Decimal.Shortest.positional Decimal.Shortest.scientific
  dsimp only
  split_ifs <;> simp

end Characters

end Json

end EntityStore
