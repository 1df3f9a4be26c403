import EntityStore.Proofs.Entity.Id
import EntityStore.Proofs.Text.Pieces
import EntityStore.Text.Hexadecimal
import Mathlib.Data.Nat.Digits.Defs
import Mathlib.Tactic.Ring

/-! UUIDs as texts and as numbers, and the ids that have one. -/
namespace EntityStore

variable {as bs cs : List Char} {place m n : ℕ}

section Digits

namespace Id

/-- What holds of each hexadecimal digit holds of all. -/
theorem forall_hexDigit {p : Char → Bool} (h : "0123456789abcdefABCDEF".toList.all p = true)
    {c : Char} (hc : isHexDigit c = true) : p c = true := by
  have hcode : c.toNat ∈ "0123456789abcdefABCDEF".toList.map Char.toNat := by
    simp only [isHexDigit, Char.isDigit, Bool.or_eq_true, Bool.and_eq_true, decide_eq_true_eq,
      Char.le_def, UInt32.le_iff_toNat_le] at hc
    change c.toNat ∈ [48, 49, 50, 51, 52, 53, 54, 55, 56, 57, 97, 98, 99, 100, 101, 102, 65, 66, 67,
      68, 69, 70]
    change ((48 ≤ c.toNat ∧ c.toNat ≤ 57) ∨ (97 ≤ c.toNat ∧ c.toNat ≤ 102)) ∨
      (65 ≤ c.toNat ∧ c.toNat ≤ 70) at hc
    simp only [List.mem_cons, List.not_mem_nil, or_false]
    omega
  obtain ⟨d, hd, hcd⟩ := List.mem_map.mp hcode
  exact Char.toNat_inj.mp hcd ▸ List.all_eq_true.mp h d hd

end Id

def hexValue (c : Char) : ℕ := (Text.hexDigit? c).getD 0

theorem hexValue_lt {c : Char} (hc : Id.isHexDigit c = true) : hexValue c < 16 := by
  have hp := Id.forall_hexDigit (p := fun c => decide (hexValue c < 16)) (by decide) hc
  exact of_decide_eq_true hp

theorem hexValue_eq_four_iff {c : Char} (hc : Id.isHexDigit c = true) :
    hexValue c = 4 ↔ c = '4' := by
  have hp := Id.forall_hexDigit (p := fun c => decide (hexValue c = 4 ↔ c = '4')) (by decide) hc
  exact of_decide_eq_true hp

/-- The number that hexadecimal digits denote. -/
def hexNumber (cs : List Char) : ℕ := Nat.ofDigits 16 (cs.reverse.map hexValue)

theorem hexNumber_append (as bs : List Char) :
    hexNumber (as ++ bs) = hexNumber as * 16 ^ bs.length + hexNumber bs := by
  unfold hexNumber
  rw [List.reverse_append, List.map_append, Nat.ofDigits_append, List.length_map,
    List.length_reverse]
  ring

theorem hexNumber_cons (c : Char) (cs : List Char) :
    hexNumber (c :: cs) = hexValue c * 16 ^ cs.length + hexNumber cs := by
  have hsingle : hexNumber [c] = hexValue c := Nat.ofDigits_singleton
  rw [← List.singleton_append, hexNumber_append, hsingle]

theorem hexNumber_lt (h : ∀ c ∈ cs, Id.isHexDigit c = true) : hexNumber cs < 16 ^ cs.length := by
  have hlen : cs.length = (cs.reverse.map hexValue).length := by simp
  rw [hlen]
  refine Nat.ofDigits_lt_base_pow_length (by decide) fun d hd => ?_
  obtain ⟨c, hc, rfl⟩ := List.mem_map.mp hd
  exact hexValue_lt (h c (List.mem_reverse.mp hc))

end Digits

/-- A group of so many hexadecimal digits of either letter case. -/
structure Uuid.Group (n : ℕ) where
  digits : List Char
  length_digits : digits.length = n
  isHexDigit : ∀ c ∈ digits, Id.isHexDigit c = true

/-- The groups of a UUID. The third one starts with the version. -/
structure Uuid where
  timeLow : Uuid.Group 8
  timeMid : Uuid.Group 4
  timeHigh : Uuid.Group 4
  clock : Uuid.Group 4
  node : Uuid.Group 12

namespace Uuid

/-- The hyphenated form. -/
def text (u : Uuid) : List Char :=
  u.timeLow.digits ++ '-' :: (u.timeMid.digits ++ '-' :: (u.timeHigh.digits ++ '-' ::
    (u.clock.digits ++ '-' :: u.node.digits)))

def versionDigit (u : Uuid) : Option Char := u.timeHigh.digits.head?

/-- The number of 128 bits that a UUID is. -/
def number (u : Uuid) : ℕ :=
  hexNumber (u.timeLow.digits ++ (u.timeMid.digits ++ (u.timeHigh.digits ++
    (u.clock.digits ++ u.node.digits))))

/-- The version in a number of 128 bits: the upper half of its seventh byte. -/
def version (n : ℕ) : ℕ := n / 256 ^ 9 % 256 / 16

section Version

theorem Group.exists_cons (g : Group (n + 1)) :
    ∃ c cs, g.digits = c :: cs ∧ Id.isHexDigit c = true ∧ cs.length = n ∧
      ∀ d ∈ cs, Id.isHexDigit d = true := by
  obtain ⟨c, cs, hg⟩ := List.exists_cons_of_length_eq_add_one g.length_digits
  have hlen := g.length_digits
  have hall := g.isHexDigit
  rw [hg] at hlen hall
  obtain ⟨hc, hcs⟩ := List.forall_mem_cons.mp hall
  exact ⟨c, cs, hg, hc, Nat.succ.inj hlen, hcs⟩

theorem version_number (u : Uuid) : version u.number = 4 ↔ u.versionDigit = some '4' := by
  obtain ⟨c, cs, hhigh, hc, hlen, hcs⟩ := u.timeHigh.exists_cons
  have hlow : (cs ++ (u.clock.digits ++ u.node.digits)).length = 19 := by
    simp [hlen, u.clock.length_digits, u.node.length_digits]
  have hlt : hexNumber (cs ++ (u.clock.digits ++ u.node.digits)) < 16 ^ 19 := by
    rw [← hlow]
    refine hexNumber_lt fun d hd => ?_
    rcases List.mem_append.mp hd with hd | hd
    · exact hcs d hd
    rcases List.mem_append.mp hd with hd | hd
    · exact u.clock.isHexDigit d hd
    · exact u.node.isHexDigit d hd
  have hnumber : u.number = hexNumber (u.timeLow.digits ++ u.timeMid.digits) * 16 ^ 20 +
      (hexValue c * 16 ^ 19 + hexNumber (cs ++ (u.clock.digits ++ u.node.digits))) := by
    have hcons := hexNumber_cons c (cs ++ (u.clock.digits ++ u.node.digits))
    rw [hlow] at hcons
    unfold number
    rw [hhigh, ← List.append_assoc, hexNumber_append, List.cons_append, hcons, List.length_cons,
      hlow]
  have hversion : version u.number = hexValue c := by
    have hvalue := hexValue_lt hc
    unfold version
    rw [hnumber]
    omega
  rw [hversion, hexValue_eq_four_iff hc, versionDigit, hhigh]
  simp

end Version

section Places

theorem fitsFrom_append (place : ℕ) (as bs : List Char) : Id.fitsFrom place (as ++ bs) =
    (Id.fitsFrom place as && Id.fitsFrom (place + as.length) bs) := by
  induction as generalizing place with
  | nil => simp [Id.fitsFrom]
  | cons a as ih =>
    rw [List.cons_append, Id.fitsFrom, ih, Id.fitsFrom, List.length_cons, Bool.and_assoc,
      Nat.add_assoc, Nat.add_comm 1]

/-- Whether a place is for any hexadecimal digit: for no hyphen, and not for the version. -/
def IsFree (place : ℕ) : Prop := place ∉ [8, 13, 14, 18, 23]

instance : DecidablePred IsFree := fun place =>
  inferInstanceAs (Decidable (place ∉ [8, 13, 14, 18, 23]))

theorem fits_of_free {c : Char} (h : IsFree place) : Id.fits place c = Id.isHexDigit c := by
  simp only [IsFree, List.mem_cons, List.not_mem_nil, or_false, not_or] at h
  simp [Id.fits, h]

theorem fitsFrom_iff_of_free (h : ∀ i < cs.length, IsFree (place + i)) :
    Id.fitsFrom place cs = true ↔ ∀ c ∈ cs, Id.isHexDigit c = true := by
  induction cs generalizing place with
  | nil => simp [Id.fitsFrom]
  | cons c cs ih =>
    have hc : IsFree place := h 0 (by simp)
    have hcs : ∀ i < cs.length, IsFree (place + 1 + i) := by
      intro i hi
      rw [Nat.add_assoc, Nat.add_comm 1]
      exact h (i + 1) (by simpa using hi)
    rw [Id.fitsFrom, Bool.and_eq_true_iff, fits_of_free hc, ih hcs, List.forall_mem_cons]

theorem Group.fitsFrom (g : Group n) (hfree : ∀ i < n, IsFree (place + i)) :
    Id.fitsFrom place g.digits = true := by
  refine (fitsFrom_iff_of_free ?_).mpr g.isHexDigit
  rwa [g.length_digits]

/-- Places for digits are taken by a group. -/
theorem exists_group (hfits : Id.fitsFrom place cs = true) (hlen : cs.length = n + m)
    (hfree : ∀ i < n, IsFree (place + i)) :
    ∃ (g : Group n) (rest : List Char), cs = g.digits ++ rest ∧ rest.length = m ∧
      Id.fitsFrom (place + n) rest = true := by
  have htake : (cs.take n).length = n := by
    rw [List.length_take]
    omega
  rw [← List.take_append_drop n cs, fitsFrom_append, Bool.and_eq_true_iff, htake] at hfits
  have hdigits := (fitsFrom_iff_of_free (by rwa [htake])).mp hfits.1
  refine ⟨⟨cs.take n, htake, hdigits⟩, cs.drop n, (List.take_append_drop n cs).symm, ?_, hfits.2⟩
  rw [List.length_drop]
  omega

theorem exists_hyphen (hfits : Id.fitsFrom place cs = true) (hlen : cs.length = m + 1)
    (hplace : place = 8 ∨ place = 13 ∨ place = 18 ∨ place = 23) :
    ∃ rest, cs = '-' :: rest ∧ rest.length = m ∧ Id.fitsFrom (place + 1) rest = true := by
  obtain ⟨c, rest, rfl⟩ := List.exists_cons_of_length_eq_add_one hlen
  obtain ⟨hc, hrest⟩ := Bool.and_eq_true_iff.mp hfits
  rw [Id.fits, if_pos hplace, beq_iff_eq] at hc
  exact ⟨rest, by rw [hc], Nat.succ.inj hlen, hrest⟩

/-- The group that starts with the version. -/
theorem exists_timeHigh (hfits : Id.fitsFrom 14 cs = true) (hlen : cs.length = 4 + m) :
    ∃ (g : Group 4) (rest : List Char), g.digits.head? = some '4' ∧ cs = g.digits ++ rest ∧
      rest.length = m ∧ Id.fitsFrom 18 rest = true := by
  obtain ⟨c, cs, rfl⟩ := List.exists_cons_of_length_eq_add_one
    (show cs.length = (3 + m) + 1 by omega)
  obtain ⟨hc, hcs⟩ := Bool.and_eq_true_iff.mp hfits
  have hfour : c = '4' := by simpa [Id.fits] using hc
  have hcslen : cs.length = 3 + m := by
    rw [List.length_cons] at hlen
    omega
  obtain ⟨g, rest, rfl, hrest, hfits⟩ := exists_group hcs hcslen (by decide)
  have hdigits : ∀ d ∈ c :: g.digits, Id.isHexDigit d = true :=
    List.forall_mem_cons.mpr ⟨hfour ▸ by decide, g.isHexDigit⟩
  exact ⟨⟨c :: g.digits, by simp [g.length_digits], hdigits⟩, rest, by simp [hfour], rfl, hrest,
    hfits⟩

theorem fitsFrom_timeHigh (g : Group 4) (h : g.digits.head? = some '4') :
    Id.fitsFrom 14 g.digits = true := by
  obtain ⟨c, cs, hg, -, hlen, hcs⟩ := g.exists_cons
  rw [hg] at h ⊢
  obtain rfl : c = '4' := by simpa using h
  refine Bool.and_eq_true_iff.mpr ⟨rfl, (fitsFrom_iff_of_free ?_).mpr hcs⟩
  rw [hlen]
  decide

theorem length_text (u : Uuid) : u.text.length = 36 := by
  simp [text, u.timeLow.length_digits, u.timeMid.length_digits, u.timeHigh.length_digits,
    u.clock.length_digits, u.node.length_digits]

theorem mem_text {u : Uuid} {c : Char} (h : c ∈ u.text) : c = '-' ∨ Id.isHexDigit c = true := by
  simp only [text, List.mem_append, List.mem_cons] at h
  rcases h with h | rfl | h | rfl | h | rfl | h | rfl | h
  · exact .inr (u.timeLow.isHexDigit c h)
  · exact .inl rfl
  · exact .inr (u.timeMid.isHexDigit c h)
  · exact .inl rfl
  · exact .inr (u.timeHigh.isHexDigit c h)
  · exact .inl rfl
  · exact .inr (u.clock.isHexDigit c h)
  · exact .inl rfl
  · exact .inr (u.node.isHexDigit c h)

theorem Group.byteSize (g : Group n) : Text.byteSize g.digits = n := by
  have hsize : ∀ cs : List Char, (∀ c ∈ cs, Id.isHexDigit c = true) →
      Text.byteSize cs = cs.length := by
    intro cs hcs
    induction cs with
    | nil => rfl
    | cons c cs ih =>
      obtain ⟨hc, hcs⟩ := List.forall_mem_cons.mp hcs
      have hone := Id.forall_hexDigit (p := fun c => c.utf8Size == 1) (by decide) hc
      rw [Text.byteSize, ih hcs, beq_iff_eq.mp hone, List.length_cons, Nat.add_comm]
  rw [hsize _ g.isHexDigit, g.length_digits]

theorem byteSize_text (u : Uuid) : Text.byteSize u.text = 36 := by
  have hhyphen : Char.utf8Size '-' = 1 := rfl
  simp [text, Text.byteSize_append, Text.byteSize, Group.byteSize, hhyphen]

/-- The texts that are UUIDs of version 4. -/
theorem isUuid4_iff :
    Id.isUuid4 cs = true ↔ ∃ u : Uuid, u.versionDigit = some '4' ∧ cs = u.text := by
  constructor
  · intro h
    obtain ⟨hlen, hfits⟩ := Bool.and_eq_true_iff.mp h
    rw [beq_iff_eq] at hlen
    obtain ⟨low, cs, rfl, hlen, hfits⟩ := exists_group (n := 8) (m := 28) hfits hlen (by decide)
    obtain ⟨cs, rfl, hlen, hfits⟩ := exists_hyphen hfits hlen (by decide)
    obtain ⟨mid, cs, rfl, hlen, hfits⟩ := exists_group (n := 4) (m := 23) hfits hlen (by decide)
    obtain ⟨cs, rfl, hlen, hfits⟩ := exists_hyphen hfits hlen (by decide)
    obtain ⟨high, cs, hversion, rfl, hlen, hfits⟩ := exists_timeHigh (m := 18) hfits hlen
    obtain ⟨cs, rfl, hlen, hfits⟩ := exists_hyphen hfits hlen (by decide)
    obtain ⟨clock, cs, rfl, hlen, hfits⟩ := exists_group (n := 4) (m := 13) hfits hlen (by decide)
    obtain ⟨cs, rfl, hlen, hfits⟩ := exists_hyphen hfits hlen (by decide)
    obtain ⟨node, cs, rfl, hlen, hfits⟩ := exists_group (n := 12) (m := 0) hfits hlen (by decide)
    obtain rfl := List.eq_nil_of_length_eq_zero hlen
    exact ⟨⟨low, mid, high, clock, node⟩, hversion, by rw [List.append_nil]; rfl⟩
  · rintro ⟨u, hversion, rfl⟩
    have hlow : Id.fitsFrom 0 u.timeLow.digits = true := u.timeLow.fitsFrom (by decide)
    have hmid : Id.fitsFrom 9 u.timeMid.digits = true := u.timeMid.fitsFrom (by decide)
    have hhigh := fitsFrom_timeHigh u.timeHigh hversion
    have hclock : Id.fitsFrom 19 u.clock.digits = true := u.clock.fitsFrom (by decide)
    have hnode : Id.fitsFrom 24 u.node.digits = true := u.node.fitsFrom (by decide)
    refine Bool.and_eq_true_iff.mpr ⟨beq_iff_eq.mpr u.length_text, ?_⟩
    simp only [text, fitsFrom_append, Id.fitsFrom, Group.length_digits, hlow, hmid, hhigh, hclock,
      hnode, Bool.true_and, Bool.and_true]
    decide

end Places

section Reading

def Group.read? (n : ℕ) (cs : List Char) : Option (Group n) :=
  if h : cs.length = n ∧ cs.all Id.isHexDigit = true then
    some ⟨cs, h.1, List.all_eq_true.mp h.2⟩
  else none

/-- Reads the hyphenated form. -/
def read? (cs : List Char) : Option Uuid :=
  match Text.split '-' cs with
  | [low, mid, high, clock, node] => do
    let low ← Group.read? 8 low
    let mid ← Group.read? 4 mid
    let high ← Group.read? 4 high
    let clock ← Group.read? 4 clock
    let node ← Group.read? 12 node
    return ⟨low, mid, high, clock, node⟩
  | _ => none

theorem Group.read?_eq_some_iff {g : Group n} : read? n cs = some g ↔ cs = g.digits := by
  unfold read?
  constructor
  · intro h
    split_ifs at h
    cases h
    rfl
  · rintro rfl
    rw [dif_pos ⟨g.length_digits, List.all_eq_true.mpr g.isHexDigit⟩]

theorem Group.hyphen_notMem (g : Group n) : '-' ∉ g.digits := by
  intro h
  exact absurd (g.isHexDigit _ h) (by decide)

theorem split_text (u : Uuid) : Text.split '-' u.text = [u.timeLow.digits, u.timeMid.digits,
    u.timeHigh.digits, u.clock.digits, u.node.digits] := by
  unfold text
  rw [Text.split_append_cons u.timeLow.hyphen_notMem,
    Text.split_append_cons u.timeMid.hyphen_notMem,
    Text.split_append_cons u.timeHigh.hyphen_notMem, Text.split_append_cons u.clock.hyphen_notMem,
    Text.split_eq_singleton u.node.hyphen_notMem]

theorem read?_eq_some_iff {u : Uuid} : read? cs = some u ↔ cs = u.text := by
  constructor
  · intro h
    unfold read? at h
    split at h
    next low mid high clock node hsplit =>
      simp only [Option.bind_eq_bind, Option.bind_eq_some_iff, Group.read?_eq_some_iff] at h
      obtain ⟨low, rfl, mid, rfl, high, rfl, clock, rfl, node, rfl, h⟩ := h
      cases h
      rw [Text.eq_of_split hsplit]
      simp [text]
    next => cases h
  · rintro rfl
    have hread : ∀ {n} (g : Group n), Group.read? n g.digits = some g :=
      fun g => Group.read?_eq_some_iff.mpr rfl
    unfold read?
    rw [split_text]
    simp only [hread]
    rfl

end Reading

end Uuid

section Ids

namespace Id

variable {kind : Kind} {id : String}

/-- A text that is an id of a kind: what the kind asks for, if anything, and a hyphenated UUID of
version 4 behind it. -/
def IsId (kind : Kind) (id : String) : Prop := ∃ u : Uuid, u.versionDigit = some '4' ∧
  id.toList = (kind.idPrefix?.getD "").toList ++ u.text

theorem valid_iff_isId : valid kind id = true ↔ IsId kind id := by
  rw [valid_iff]
  constructor
  · rintro ⟨cs, hcs, hid⟩
    obtain ⟨u, hversion, rfl⟩ := Uuid.isUuid4_iff.mp hcs
    exact ⟨u, hversion, hid⟩
  · rintro ⟨u, hversion, hid⟩
    exact ⟨u.text, Uuid.isUuid4_iff.mpr ⟨u, hversion, rfl⟩, hid⟩

theorem validate_of_not_isId (h : ¬ IsId kind id) :
    validate kind id = .error (.invalidId id kind.idPrefix?) :=
  if_neg (mt valid_iff_isId.mp h)

/-- A reader of UUIDs, as far as it is relied on: from 36 bytes it reads the hyphenated form only.
-/
structure ReadsUuids (parse? : List Char → Option ℕ) : Prop where
  hyphenated : ∀ cs n, Text.byteSize cs = 36 →
    (parse? cs = some n ↔ ∃ u : Uuid, cs = u.text ∧ n = u.number)

/-- Refuses a text that a reader of UUIDs takes for none of version 4. The length is checked first,
since the reader may take other forms. -/
def checkUuidWith (parse? : List Char → Option ℕ) (invalid : ValidationError) (uuid : List Char) :
    Except ValidationError Unit :=
  if Text.byteSize uuid ≠ 36 then .error invalid
  else match parse? uuid with
    | none => .error invalid
    | some n => if Uuid.version n ≠ 4 then .error invalid else .ok ()

/-- The check of an id by a reader of UUIDs. -/
def validateWith (parse? : List Char → Option ℕ) (kind : Kind) (id : String) :
    Except ValidationError Unit := do
  let invalid := ValidationError.invalidId id kind.idPrefix?
  let uuid ← match kind.idPrefix? with
    | some p => match strip? p.toList id.toList with
      | some rest => .ok rest
      | none => .error invalid
    | none => .ok id.toList
  checkUuidWith parse? invalid uuid

theorem ReadsUuids.isUuid4_iff {parse? : List Char → Option ℕ} (h : ReadsUuids parse?)
    {cs : List Char} : isUuid4 cs = true ↔
      Text.byteSize cs = 36 ∧ ∃ n, parse? cs = some n ∧ Uuid.version n = 4 := by
  rw [Uuid.isUuid4_iff]
  constructor
  · rintro ⟨u, hversion, rfl⟩
    have hsize := u.byteSize_text
    have hread := (h.hyphenated u.text u.number hsize).mpr ⟨u, rfl, rfl⟩
    exact ⟨hsize, u.number, hread, u.version_number.mpr hversion⟩
  · rintro ⟨hsize, n, hread, hversion⟩
    obtain ⟨u, rfl, rfl⟩ := (h.hyphenated cs n hsize).mp hread
    exact ⟨u, u.version_number.mp hversion, rfl⟩

theorem ReadsUuids.checkUuidWith_eq {parse? : List Char → Option ℕ} (h : ReadsUuids parse?)
    (invalid : ValidationError) (cs : List Char) :
    checkUuidWith parse? invalid cs = if isUuid4 cs then .ok () else .error invalid := by
  unfold checkUuidWith
  by_cases hcs : isUuid4 cs = true
  · obtain ⟨hsize, n, hread, hversion⟩ := h.isUuid4_iff.mp hcs
    simp [hcs, hsize, hread, hversion]
  · have hnone := mt h.isUuid4_iff.mpr hcs
    rw [if_neg hcs]
    split_ifs with hsize
    · rfl
    cases hread : parse? cs with
    | none => rfl
    | some n => exact if_pos fun hversion => hnone ⟨not_not.mp hsize, n, hread, hversion⟩

/-- The check is the same with each such reader. -/
theorem ReadsUuids.validateWith_eq {parse? : List Char → Option ℕ} (h : ReadsUuids parse?)
    (kind : Kind) (id : String) : validateWith parse? kind id = validate kind id := by
  unfold validateWith validate valid
  cases kind.idPrefix? with
  | none => exact h.checkUuidWith_eq _ _
  | some p =>
    rw [Option.getD_some]
    obtain hnone | ⟨uuid, hsome⟩ := Option.eq_none_or_eq_some (strip? p.toList id.toList)
    · simp only [hnone]
      rfl
    · simp only [hsome]
      exact h.checkUuidWith_eq _ _

/-- A reader of the usual forms: with hyphens or without, in braces, and as a URN. -/
def anyForm? (cs : List Char) : Option ℕ :=
  match Text.byteSize cs with
  | 32 => (Uuid.Group.read? 32 cs).map fun g => hexNumber g.digits
  | 36 => (Uuid.read? cs).map Uuid.number
  | 38 => do
    let rest ← strip? ['{'] cs
    if rest.getLast? = some '}' then (Uuid.read? rest.dropLast).map Uuid.number else none
  | 45 => do
    let rest ← strip? "urn:uuid:".toList cs
    (Uuid.read? rest).map Uuid.number
  | _ => none

theorem readsUuids_anyForm? : ReadsUuids anyForm? := by
  refine ⟨fun cs n hsize => ?_⟩
  rw [anyForm?, hsize]
  simp only [Option.map_eq_some_iff, Uuid.read?_eq_some_iff]
  exact exists_congr fun u => and_congr_right' eq_comm

end Id

end Ids

end EntityStore
