import EntityStore.Json.Reader
import EntityStore.Json.Printer
import EntityStore.Proofs.Assoc

/-! JSON values: induction on them, their nesting, and what holds of all that stands in one. -/
namespace EntityStore.Json

/-- Induction on values: what holds of the items of an array, or of the values of an object's
members, holds of the array and of the object. -/
@[elab_as_elim]
theorem induct {P : Json → Prop} (null : P null) (bool : ∀ b, P (bool b)) (int : ∀ n, P (int n))
    (float : ∀ x, P (float x)) (str : ∀ s, P (str s))
    (arr : ∀ xs, (∀ x ∈ xs, P x) → P (arr xs))
    (obj : ∀ ms, (∀ m ∈ ms, P m.2) → P (obj ms)) : ∀ j, P j
  | .null => null
  | .bool b => bool b
  | .int n => int n
  | .float x => float x
  | .str s => str s
  | .arr xs => arr xs fun x hx => by
    have hlt := List.sizeOf_lt_of_mem hx
    exact induct null bool int float str arr obj x
  | .obj ms => obj ms fun m hm => by
    have hlt := List.sizeOf_lt_of_mem hm
    have hsnd : sizeOf m = 1 + sizeOf m.1 + sizeOf m.2 := rfl
    exact induct null bool int float str arr obj m.2

section Nesting

mutual

/-- How deep arrays and objects stand in one another. -/
def nesting : Json → Nat
  | arr xs => nestingItems xs + 1
  | obj ms => nestingMembers ms + 1
  | _ => 0

def nestingItems : List Json → Nat
  | [] => 0
  | x :: xs => max x.nesting (nestingItems xs)

def nestingMembers : List (String × Json) → Nat
  | [] => 0
  | (_, x) :: ms => max x.nesting (nestingMembers ms)

end

end Nesting

section Every

mutual

/-- Whether a value, and each value that stands in it, has a property. -/
def every (p : Json → Bool) : Json → Bool
  | arr xs => p (arr xs) && everyItem p xs
  | obj ms => p (obj ms) && everyMember p ms
  | j => p j

def everyItem (p : Json → Bool) : List Json → Bool
  | [] => true
  | x :: xs => x.every p && everyItem p xs

def everyMember (p : Json → Bool) : List (String × Json) → Bool
  | [] => true
  | (_, x) :: ms => x.every p && everyMember p ms

end

variable {p : Json → Bool}

theorem everyItem_iff {xs : List Json} :
    everyItem p xs = true ↔ ∀ x ∈ xs, x.every p = true := by
  induction xs with
  | nil => simp [everyItem]
  | cons x xs ih => rw [everyItem, Bool.and_eq_true, ih, List.forall_mem_cons]

theorem everyMember_iff {ms : List (String × Json)} :
    everyMember p ms = true ↔ ∀ m ∈ ms, m.2.every p = true := by
  induction ms with
  | nil => simp [everyMember]
  | cons m ms ih => rw [everyMember, Bool.and_eq_true, ih, List.forall_mem_cons]

theorem every_arr_iff {xs : List Json} :
    (arr xs).every p = true ↔ p (arr xs) = true ∧ ∀ x ∈ xs, x.every p = true := by
  rw [every, Bool.and_eq_true, everyItem_iff]

theorem every_obj_iff {ms : List (String × Json)} :
    (obj ms).every p = true ↔ p (obj ms) = true ∧ ∀ m ∈ ms, m.2.every p = true := by
  rw [every, Bool.and_eq_true, everyMember_iff]

theorem of_every {j : Json} (h : j.every p = true) : p j = true := by
  cases j with
  | arr xs => exact (every_arr_iff.mp h).1
  | obj ms => exact (every_obj_iff.mp h).1
  | _ => simpa [every] using h

end Every

/-- Whether an integer has 64 bits, and whether the keys of an object increase. -/
def isRegular : Json → Bool
  | int n => -(Numeral.int64Limit : Int) ≤ n && n < unsignedLimit
  | obj ms => decide (Assoc.Sorted ms)
  | _ => true

/-- Whether a float is the one that its own text is read as. -/
def isExact : Json → Bool
  | float x => match parse? (float x).compact with
    | some (float y) => x = y
    | _ => false
  | _ => true

theorem isExact_float_iff {x : Binary64} :
    (float x).isExact = true ↔ parse? (float x).compact = some (float x) := by
  unfold isExact
  dsimp only
  split
  next y hy => rw [hy, decide_eq_true_iff, Option.some.injEq, float.injEq, eq_comm]
  next hne => exact iff_of_false Bool.false_ne_true fun h => hne x h

end EntityStore.Json
