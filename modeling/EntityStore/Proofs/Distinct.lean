import Mathlib.Data.List.Nodup

/-! Lists in which each item stands once, where it is mentioned first. -/
namespace EntityStore.Distinct

variable {α : Type} [BEq α] [LawfulBEq α]

theorem nodup_eraseDups (xs : List α) : xs.eraseDups.Nodup := by
  cases xs with
  | nil => exact List.nodup_nil
  | cons x xs =>
    rw [List.eraseDups_cons, List.nodup_cons]
    refine ⟨?_, nodup_eraseDups _⟩
    rw [List.mem_eraseDups, List.mem_filter]
    simp
termination_by xs.length
decreasing_by
  have hlen := List.length_filter_le (fun y => !y == x) xs
  rw [List.length_cons]
  omega

/-- Items that are put behind those that are there, unless they are there, stand in the order of
their first mention. -/
theorem foldl_append_new (known xs : List α) :
    xs.foldl (fun acc x => if acc.contains x then acc else acc ++ [x]) known =
      known ++ (xs.filter fun x => !known.contains x).eraseDups := by
  induction xs generalizing known with
  | nil => simp
  | cons x xs ih =>
    rw [List.foldl_cons, ih, List.filter_cons]
    cases hx : known.contains x with
    | true => rfl
    | false =>
      -- What is new from here on is new to `known`, and is not `x`.
      have hrest : (xs.filter fun y => !(known ++ [x]).contains y) =
          (xs.filter fun y => !known.contains y).filter fun y => !y == x := by
        rw [List.filter_filter]
        refine List.filter_congr fun y _ => ?_
        rw [List.contains_eq_any_beq, List.contains_eq_any_beq, List.any_append, Bool.not_or]
        simp [Bool.and_comm]
      simp only [Bool.false_eq_true, if_false, Bool.not_false, if_true, hrest,
        List.eraseDups_cons, List.append_assoc, List.singleton_append]

end EntityStore.Distinct
