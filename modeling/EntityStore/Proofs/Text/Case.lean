import EntityStore.Text.Case
import Mathlib.Data.List.Forall2

/-! Texts that differ in ASCII letter case at most, character by character. -/
namespace EntityStore.Text

/-- Two characters that are equal, or a capital ASCII letter and its small form. -/
inductive SameLetter : Char → Char → Prop
  | self (c : Char) : SameLetter c c
  | lower {c d : Char} (hc : c.isUpper = true) (hd : d.toNat = c.toNat + 32) : SameLetter c d
  | upper {c d : Char} (hd : d.isUpper = true) (hc : c.toNat = d.toNat + 32) : SameLetter c d

/-- Texts that are equal up to ASCII letter case. -/
def Alike (s t : String) : Prop := List.Forall₂ SameLetter s.toList t.toList

/-- Whether the characters of a text stand in another one in their order, with any others between
them, up to ASCII letter case. -/
def Within (s t : String) : Prop := List.SublistForall₂ SameLetter s.toList t.toList

variable {c d : Char} {s t : String}

theorem isUpper_iff : c.isUpper = true ↔ 'A'.val ≤ c.val ∧ c.val ≤ 'Z'.val := decide_eq_true_iff

theorem isUpper_iff_toNat : c.isUpper = true ↔ 65 ≤ c.toNat ∧ c.toNat ≤ 90 := by
  rw [isUpper_iff, UInt32.le_iff_toNat_le, UInt32.le_iff_toNat_le]
  rfl

theorem toNat_toLower (c : Char) :
    c.toLower.toNat = if c.isUpper = true then c.toNat + 32 else c.toNat := by
  unfold Char.toLower
  by_cases h : c.isUpper = true
  · have hle : c.val.toNat ≤ 90 := (isUpper_iff_toNat.mp h).2
    have hsum : (c.val + ('a'.val - 'A'.val)).toNat = (c.val.toNat + 32) % 2 ^ 32 := by
      rw [UInt32.toNat_add]
      rfl
    rw [if_pos h, dif_pos (isUpper_iff.mp h)]
    exact hsum.trans (Nat.mod_eq_of_lt (by omega))
  · rw [if_neg h, dif_neg (mt isUpper_iff.mpr h)]

/-- Small forms are equal where the letters are the same. -/
theorem toLower_eq_iff : c.toLower = d.toLower ↔ SameLetter c d := by
  rw [← Char.toNat_inj, toNat_toLower, toNat_toLower]
  constructor
  · intro h
    split_ifs at h with hc hd hd
    · obtain rfl := Char.toNat_inj.mp (Nat.add_right_cancel h)
      exact .self c
    · exact .lower hc h.symm
    · exact .upper hd h
    · obtain rfl := Char.toNat_inj.mp h
      exact .self c
  · intro h
    cases h with
    | self => rfl
    | lower hc hd =>
      have hcode := isUpper_iff_toNat.mp hc
      have hsmall : ¬ d.isUpper = true := by
        rw [isUpper_iff_toNat]
        omega
      rw [if_pos hc, if_neg hsmall, hd]
    | upper hd hc =>
      have hcode := isUpper_iff_toNat.mp hd
      have hsmall : ¬ c.isUpper = true := by
        rw [isUpper_iff_toNat]
        omega
      rw [if_neg hsmall, if_pos hd, hc]

theorem folded_eq_iff : folded s = folded t ↔ Alike s t := by
  rw [folded, folded, Alike, ← List.forall₂_eq_eq_eq, List.forall₂_map_left_iff,
    List.forall₂_map_right_iff]
  simp only [toLower_eq_iff]

theorem sameFolded_iff_alike : sameFolded s t = true ↔ Alike s t :=
  sameFolded_iff.trans folded_eq_iff

instance (s t : String) : Decidable (Alike s t) := decidable_of_iff _ folded_eq_iff

theorem Alike.refl (s : String) : Alike s s := folded_eq_iff.mp rfl

theorem Alike.symm (h : Alike s t) : Alike t s := folded_eq_iff.mp (folded_eq_iff.mpr h).symm

theorem Alike.trans {u : String} (h : Alike s t) (h' : Alike t u) : Alike s u :=
  folded_eq_iff.mp ((folded_eq_iff.mpr h).trans (folded_eq_iff.mpr h'))

/-- A text stands within any other that is equal to it up to letter case. -/
theorem Alike.within (h : Alike s t) : Within s t :=
  List.sublistForall₂_iff.mpr ⟨t.toList, h, .refl _⟩

end EntityStore.Text
