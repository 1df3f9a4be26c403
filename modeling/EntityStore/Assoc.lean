/-! Finite maps as lists of pairs with increasing keys. -/
namespace EntityStore

/-- A finite map, listed by increasing key. -/
abbrev Assoc (κ α : Type) := List (κ × α)

namespace Assoc

variable {κ α : Type} [DecidableEq κ]

def find? (k : κ) : Assoc κ α → Option α
  | [] => none
  | (j, v) :: rest => if j = k then some v else find? k rest

/-- Puts a value at a key, in place of the old one if there is one. -/
def insert [LT κ] [DecidableLT κ] (k : κ) (v : α) : Assoc κ α → Assoc κ α
  | [] => [(k, v)]
  | (j, w) :: rest =>
    if j = k then (k, v) :: rest
    else if k < j then (k, v) :: (j, w) :: rest
    else (j, w) :: insert k v rest

def erase (k : κ) (m : Assoc κ α) : Assoc κ α :=
  m.filter fun p => p.1 ≠ k

/-- The map of a list of pairs; of two values at one key the later counts. -/
def ofList [LT κ] [DecidableLT κ] (pairs : List (κ × α)) : Assoc κ α :=
  pairs.foldl (fun m p => insert p.1 p.2 m) []

def contains (k : κ) (m : Assoc κ α) : Bool := (find? k m).isSome

def Sorted [LT κ] (m : Assoc κ α) : Prop := m.Pairwise fun p q => p.1 < q.1

theorem find?_insert_self [LT κ] [DecidableLT κ] (k : κ) (v : α) (m : Assoc κ α) :
    find? k (insert k v m) = some v := by
  induction m with
  | nil => simp [insert, find?]
  | cons p rest ih =>
    obtain ⟨j, w⟩ := p
    by_cases hj : j = k
    · simp [insert, find?, hj]
    · by_cases hk : k < j <;> simp [insert, find?, hj, hk, ih]

theorem find?_insert_of_ne [LT κ] [DecidableLT κ] {j k : κ} (h : j ≠ k) (v : α)
    (m : Assoc κ α) : find? j (insert k v m) = find? j m := by
  induction m with
  | nil => simp [insert, find?, h.symm]
  | cons p rest ih =>
    obtain ⟨i, w⟩ := p
    by_cases hi : i = k
    · subst hi
      simp [insert, find?, h.symm]
    · by_cases hk : k < i
      · simp [insert, find?, hi, hk, h.symm]
      · by_cases hij : i = j
        · subst hij
          simp [insert, find?, hi, hk]
        · simp [insert, find?, hi, hk, hij, ih]

theorem find?_erase_self (k : κ) (m : Assoc κ α) : find? k (erase k m) = none := by
  induction m with
  | nil => rfl
  | cons p rest ih =>
    obtain ⟨j, w⟩ := p
    by_cases hj : j = k
    · simpa [erase, hj] using ih
    · simpa [erase, find?, hj] using ih

theorem find?_erase_of_ne {j k : κ} (h : j ≠ k) (m : Assoc κ α) :
    find? j (erase k m) = find? j m := by
  induction m with
  | nil => rfl
  | cons p rest ih =>
    obtain ⟨i, w⟩ := p
    by_cases hi : i = k
    · subst hi
      simpa [erase, find?, h.symm] using ih
    · by_cases hij : i = j
      · subst hij
        simp [erase, find?, hi]
      · simpa [erase, find?, hi, hij] using ih

end Assoc

end EntityStore
