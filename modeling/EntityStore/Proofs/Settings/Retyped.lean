import EntityStore.Proofs.Json.Number
import EntityStore.Proofs.Number.Grammar
import EntityStore.Proofs.Settings.Sources

/-! The path of the store among the variables: a text that could be a value of another type is
written out again as that value, and stays as it is only if it was written that way. -/
namespace EntityStore

namespace Decimal

variable {cs ds : List Char}

/-- An integer without a plus sign and without idle zeros; zero has no sign. -/
inductive IsPlainInteger : List Char → Prop
  | zero : IsPlainInteger ['0']
  | positive {ds : List Char} (hne : ds ≠ []) (hds : ∀ d ∈ ds, d.isDigit = true)
      (hhead : ds.head? ≠ some '0') : IsPlainInteger ds
  | negative {ds : List Char} (hne : ds ≠ []) (hds : ∀ d ∈ ds, d.isDigit = true)
      (hhead : ds.head? ≠ some '0') : IsPlainInteger ('-' :: ds)

theorem digitChar_of_isDigit {d : Char} (hd : d.isDigit = true) :
    (d.toNat - '0'.toNat).digitChar = d ∧ d.toNat - '0'.toNat < 10 := by
  obtain ⟨hlow, hhigh⟩ : 48 ≤ d.toNat ∧ d.toNat ≤ 57 := Char.isDigit_iff_toNat.mp hd
  have hlt : d.toNat - 48 < 10 := by omega
  refine ⟨Char.toNat_inj.mp ?_, hlt⟩
  have hchar : (d.toNat - 48).digitChar.toNat = 48 + (d.toNat - 48) :=
    Nat.toNat_digitChar_of_lt_ten hlt
  exact hchar.trans (Nat.add_sub_cancel' hlow)

theorem value_ne_zero (h : digits (Numeral.value ds) = ds) (hhead : ds.head? ≠ some '0') :
    Numeral.value ds ≠ 0 := by
  intro hzero
  rw [hzero] at h
  exact hhead (congrArg List.head? h.symm)

/-- Digits without an idle zero in front are those of their number. -/
theorem digits_value (hne : ds ≠ []) (hds : ∀ d ∈ ds, d.isDigit = true)
    (hhead : ds.head? ≠ some '0') : digits (Numeral.value ds) = ds := by
  induction ds using List.reverseRecOn with
  | nil => exact absurd rfl hne
  | append_singleton xs d ih =>
    obtain ⟨hchar, hlt⟩ := digitChar_of_isDigit (hds d (by simp))
    have hvalue : Numeral.value (xs ++ [d]) = 10 * Numeral.value xs + (d.toNat - '0'.toNat) := by
      rw [Numeral.value, Numeral.valueFrom_append]
      rfl
    generalize d.toNat - '0'.toNat = k at hvalue hchar hlt
    rw [hvalue, ← hchar]
    cases xs with
    | nil =>
      have hzero : Numeral.value [] = 0 := rfl
      rw [hzero, Nat.mul_zero, Nat.zero_add]
      exact Nat.toDigits_of_lt_base hlt
    | cons x xs =>
      have hfront : digits (Numeral.value (x :: xs)) = x :: xs :=
        ih (List.cons_ne_nil x xs) (fun c hc => hds c (List.mem_append_left _ hc)) hhead
      have hpos := value_ne_zero hfront hhead
      have hmore : digits (10 * Numeral.value (x :: xs) + k) =
          digits ((10 * Numeral.value (x :: xs) + k) / 10) ++
            [((10 * Numeral.value (x :: xs) + k) % 10).digitChar] :=
        Nat.toDigits_of_base_le (by decide) (by omega)
      have hdiv : (10 * Numeral.value (x :: xs) + k) / 10 = Numeral.value (x :: xs) := by omega
      have hmod : (10 * Numeral.value (x :: xs) + k) % 10 = k := by omega
      rw [hmore, hdiv, hmod, hfront]

/-- The texts that integers are written as. -/
theorem exists_ofInt_iff : (∃ n, ofInt n = cs) ↔ IsPlainInteger cs := by
  have hdigits (n : ℕ) : ∀ d ∈ digits n, d.isDigit = true := fun _ => isDigit_of_mem_digits
  constructor
  · rintro ⟨n, rfl⟩
    cases n with
    | ofNat n =>
      by_cases hn : n = 0
      · rw [hn]
        exact .zero
      · exact .positive (digits_ne_nil n) (hdigits n) (head?_digits_ne_zero hn)
    | negSucc n =>
      exact .negative (digits_ne_nil _) (hdigits _) (head?_digits_ne_zero (Nat.succ_ne_zero n))
  · intro h
    cases h with
    | zero => exact ⟨0, rfl⟩
    | positive hne hds hhead => exact ⟨Int.ofNat (Numeral.value cs), digits_value hne hds hhead⟩
    | @negative ds hne hds hhead =>
      have hvalue := digits_value hne hds hhead
      obtain ⟨m, hm⟩ := Nat.exists_eq_succ_of_ne_zero (value_ne_zero hvalue hhead)
      rw [hm] at hvalue
      exact ⟨Int.negSucc m, congrArg ('-' :: ·) hvalue⟩

theorem denotes_ofInt (n : ℤ) : Numeral.Denotes (ofInt n) n := by
  have hdigits (n : ℕ) : ∀ d ∈ digits n, d.isDigit = true := fun _ => isDigit_of_mem_digits
  cases n with
  | ofNat n =>
    have h := Numeral.Denotes.plain (digits_ne_nil n) (hdigits n)
    rwa [Numeral.value_digits] at h
  | negSucc n =>
    have h := Numeral.Denotes.minus (digits_ne_nil (n + 1)) (hdigits (n + 1))
    rwa [Numeral.value_digits] at h

end Decimal

namespace Settings

open Numeral

variable {text : String} {x : Binary64} {n : ℤ}

/-- The texts of variables that stay as they are: those of no other type; a truth value in small
letters; an integer of 64 bits without a plus sign and idle zeros; and another number with no more
digits than it takes to tell it from others, and without exponent. -/
inductive Kept (text : String) : Prop
  | wording (h : IsWording text)
  | truth (b : Bool) (h : text = truthWord b)
  | integer {n : ℤ} (hn : -2 ^ 63 ≤ n ∧ n < 2 ^ 63) (hdenotes : Denotes text.toList n)
      (hplain : Decimal.IsPlainInteger text.toList)
  | float {x : Binary64} (hx : binary64? text.toList = some x)
      (hn : (integer? text.toList).bind int64? = none) (hplain : Decimal.plain x = text.toList)

/-- What starts with the first letter of a truth value is no number. -/
theorem binary64?_eq_none {c : Char} {tail : List Char} (hc : c.toLower = 't' ∨ c.toLower = 'f') :
    binary64? (c :: tail) = none := by
  have hdigit : c.isDigit = false := by
    refine Bool.eq_false_iff.mpr fun hdigit => ?_
    rw [toLower_of_isDigit hdigit] at hc
    rcases hc with rfl | rfl <;> cases hdigit
  have hne {d : Char} (hd : d.toLower ≠ 't' ∧ d.toLower ≠ 'f') : c ≠ d := by
    rintro rfl
    exact hc.elim hd.1 hd.2
  have hsign : splitSign (c :: tail) = (false, c :: tail) := by
    unfold splitSign
    split
    next heq => exact absurd (List.cons.inj heq).1 (hne (by decide))
    next heq => exact absurd (List.cons.inj heq).1 (hne (by decide))
    next => rfl
  have hspan : spanDigits (c :: tail) = ([], c :: tail) := by
    simp [spanDigits, hdigit]
  have hword (letters : List Char)
      (hletters : letters.head? ≠ some 't' ∧ letters.head? ≠ some 'f') :
      (c :: tail).map Char.toLower ≠ letters := by
    rintro rfl
    simp only [List.map_cons, List.head?_cons, ne_eq, Option.some.injEq] at hletters
    exact hc.elim hletters.1 hletters.2
  unfold binary64?
  rw [hsign]
  dsimp only
  rw [if_neg (not_or.mpr ⟨hword _ (by decide), hword _ (by decide)⟩), if_neg (hword _ (by decide)),
    hspan]
  dsimp only
  refine if_pos ?_
  split
  next heq => exact absurd (List.cons.inj heq).1 (hne (by decide))
  next => rfl

/-- A number is no truth value. -/
theorem sameFolded_truthWord (h : binary64? text.toList = some x) (b : Bool) :
    Text.sameFolded text (truthWord b) = false := by
  refine Bool.eq_false_iff.mpr fun hb => ?_
  have hletters : text.toList.map Char.toLower = (truthWord b).toList.map Char.toLower :=
    Text.sameFolded_iff.mp hb
  cases hcs : text.toList with
  | nil =>
    rw [hcs] at hletters
    cases b <;> cases hletters
  | cons c tail =>
    rw [hcs] at h hletters
    have hc : c.toLower = 't' ∨ c.toLower = 'f' := by
      cases b
      · exact .inr (List.cons.inj hletters).1
      · exact .inl (List.cons.inj hletters).1
    rw [binary64?_eq_none hc] at h
    cases h

theorem variableValue_of_binary64? (h : binary64? text.toList = some x) : variableValue text =
    (((integer? text.toList).bind int64?).map fun n => Json.int n.toInt).getD (.float x) := by
  have htrue := sameFolded_truthWord h true
  have hfalse := sameFolded_truthWord h false
  simp only [truthWord, if_true, Bool.false_eq_true, if_false] at htrue hfalse
  simp only [variableValue, htrue, hfalse, h, Bool.false_eq_true, if_false]
  cases (integer? text.toList).bind int64? <;> rfl

theorem retyped_of_denotes (h : Denotes text.toList n) (hn : -2 ^ 63 ≤ n ∧ n < 2 ^ 63) :
    retyped text = String.ofList (Decimal.ofInt n) := by
  obtain ⟨x, hx, -⟩ := exists_binary64?_iff.mpr h.isNumber
  have hint : (integer? text.toList).bind int64? = some (Int64.ofInt n) := by
    rw [h.integer?]
    exact if_pos hn
  rw [retyped, variableValue_of_binary64? hx, hint, Option.map_some, Option.getD_some,
    Int64.toInt_ofInt_of_le hn.1 hn.2]
  rfl

/-- The texts of variables that stay as they are when they are taken for values of other types. -/
theorem retyped_eq_self_iff : retyped text = text ↔ Kept text := by
  constructor
  · intro h
    obtain ⟨b, -, hvalue⟩ | ⟨n, m, hn, hm, hvalue⟩ | ⟨x, hnone, hx, hvalue⟩ | ⟨htruth, hx, -⟩ :=
      variableValue_cases text
    · rw [retyped, hvalue] at h
      exact .truth b h.symm
    · rw [retyped, hvalue] at h
      unfold int64? at hm
      split_ifs at hm with hrange
      refine .integer hrange (integer?_eq_some_iff.mp hn)
        (Decimal.exists_ofInt_iff.mp ⟨m.toInt, ?_⟩)
      rw [← h]
      exact String.toList_ofList.symm
    · rw [retyped, hvalue] at h
      refine .float hx hnone ?_
      rw [← h]
      exact String.toList_ofList.symm
    · refine .wording ⟨htruth, ?_, hx⟩
      cases hinteger : integer? text.toList with
      | none => rfl
      | some n =>
        have hdenotes := integer?_eq_some_iff.mp hinteger
        obtain ⟨x, hfloat, -⟩ := exists_binary64?_iff.mpr hdenotes.isNumber
        cases hx.symm.trans hfloat
  · intro h
    cases h with
    | wording h => exact h.retyped
    | truth b h =>
      subst h
      cases b <;> rfl
    | integer hn hdenotes hplain =>
      obtain ⟨m, hm⟩ := Decimal.exists_ofInt_iff.mpr hplain
      have hself : Denotes text.toList m := hm ▸ Decimal.denotes_ofInt m
      cases Option.some.inj (hdenotes.integer?.symm.trans hself.integer?)
      rw [retyped_of_denotes hdenotes hn, hm, String.ofList_toList]
    | float hx hn hplain =>
      rw [retyped, variableValue_of_binary64? hx, hn]
      show String.ofList (Decimal.plain _) = text
      rw [hplain, String.ofList_toList]

section Load

variable {s : Surroundings} {t : Tree} {file : Option String}
  {defaults user asked : List Assignment} {exported : Assignment} {p : String}

theorem latest_concat {α : Type} (f : Assignment → Option α) (as : List Assignment)
    (a : Assignment) : latest f (as ++ [a]) = (f a).or (latest f as) := by
  unfold latest
  rw [List.filterMap_append, List.getLast?_append]
  cases hf : f a <;> simp [hf]

/-- The last path counts for nothing but the path. -/
theorem settle_concat_path (as : List Assignment) (a : Assignment) (q : String) :
    settle (as ++ [{ a with path := some q }]) = { settle (as ++ [a]) with path := q } := by
  simp only [settle, latest_concat, Option.some_or, Option.getD_some]

/-- With a path among the variables the settings load, and what they have for it is that text as it
is read and written out again. It is the text itself exactly if that is kept. -/
theorem load_path_variable
    (hdefaults : List.Forall₂ (MayAssign t s.base) defaultFiles defaults)
    (huser : List.Forall₂ (MayAssign t s.base) s.userFile.toList user)
    (hasked : List.Forall₂ (FileAssigns t s.base) file.toList asked)
    (hexported : Exports s.environment exported) (hpath : exported.path = some p) :
    load s t file =
        .ok { settle (defaults ++ user ++ asked ++ [exported]) with path := retyped p } ∧
      (retyped p = p ↔ Kept p) := by
  refine ⟨?_, retyped_eq_self_iff⟩
  rw [load_retyped hdefaults huser hasked hexported, hpath, Option.map_some, settle_concat_path]

/-- Surroundings whose one variable is the path of the store. -/
def pathVariable (p : String) : Surroundings := ⟨"/", none, [("CYBERDEM__STORE__PATH", p)]⟩

theorem load_path_variable_number :
    load (pathVariable "007") stacked (some "custom") = .ok ⟨"7", .pretty, false, false⟩ ∧
      ¬ Kept "007" := by
  have hbase : (pathVariable "007").base = [] := by decide +kernel
  have hdefaults : List.Forall₂ (MayAssign stacked (pathVariable "007").base) defaultFiles
      [{ path := some "base", outputFormat := some .compact }, {},
        { atomicWrites := some false }] := by
    rw [hbase]
    exact .cons (.present (by decide +kernel)) (.cons (.absent rfl)
      (.cons (.present (by decide +kernel)) .nil))
  have hasked : List.Forall₂ (FileAssigns stacked (pathVariable "007").base)
      (some "custom").toList [{ outputFormat := some .pretty }] := by
    rw [hbase]
    exact .cons (by decide +kernel) .nil
  have hexported : Exports (pathVariable "007").environment { path := some "007" } := by
    decide +kernel
  obtain ⟨hload, hkept⟩ := load_path_variable hdefaults .nil hasked hexported rfl
  have hretyped : retyped "007" = "7" := by decide +kernel
  rw [hretyped] at hload hkept
  exact ⟨hload, fun h => absurd (hkept.mpr h) (by decide)⟩

/-- A path among the variables is not used as it is written. -/
theorem not_load_path_as_written : ¬ ∀ p, p ≠ "" → ∃ settings,
    load (pathVariable p) Tree.empty none = .ok settings ∧ settings.path = p := by
  intro h
  obtain ⟨settings, hload, hsettings⟩ := h "007" (by decide)
  have hbase : (pathVariable "007").base = [] := by decide +kernel
  have hdefaults : List.Forall₂ (MayAssign Tree.empty (pathVariable "007").base) defaultFiles
      [{}, {}, {}] := by
    rw [hbase]
    exact .cons (.absent rfl) (.cons (.absent rfl) (.cons (.absent rfl) .nil))
  have hexported : Exports (pathVariable "007").environment { path := some "007" } := by
    decide +kernel
  cases (load_retyped hdefaults .nil .nil hexported).symm.trans hload
  have hretyped : retyped "007" = "7" := by decide +kernel
  exact absurd (hretyped.symm.trans hsettings) (by decide)

end Load

end Settings

end EntityStore
