import EntityStore.Proofs.Entity.Invariant
import EntityStore.Query.Eval
import Mathlib.Order.Basic

/-! The relations that operators stand for, and clauses about attributes as these relations. -/
namespace EntityStore

/-- What an operator says of two things in order. -/
def Operator.Relates {α : Type} [LT α] : Operator → α → α → Prop
  | .eq, x, y => x = y
  | .ne, x, y => x ≠ y
  | .lt, x, y => x < y
  | .gt, x, y => y < x
  | .le, x, y => x < y ∨ x = y
  | .ge, x, y => y < x ∨ x = y

/-- An order of two things that tells which of the three it is. -/
structure Orders {α : Type} [LT α] (o : Ordering) (x y : α) : Prop where
  lt_iff : o = .lt ↔ x < y
  eq_iff : o = .eq ↔ x = y
  gt_iff : o = .gt ↔ y < x

theorem Orders.accepts_iff {α : Type} [LT α] {o : Ordering} {x y : α} (h : Orders o x y)
    (op : Operator) : op.accepts o = true ↔ op.Relates x y := by
  cases op with
  | eq => exact beq_iff_eq.trans h.eq_iff
  | ne => exact bne_iff_ne.trans (not_congr h.eq_iff)
  | lt => exact beq_iff_eq.trans h.lt_iff
  | gt => exact beq_iff_eq.trans h.gt_iff
  | le =>
    rw [Operator.Relates, ← h.lt_iff, ← h.eq_iff]
    cases o <;> decide
  | ge =>
    rw [Operator.Relates, ← h.gt_iff, ← h.eq_iff]
    cases o <;> decide

theorem orders_compare (m n : ℤ) : Orders (compare m n) m n where
  lt_iff := Int.compare_eq_lt
  eq_iff := Int.compare_eq_eq
  gt_iff := Int.compare_eq_gt

/-- A clause about an attribute that is set and can be compared says what its operator does. -/
theorem Clause.holds_iff_relates {α : Type} [LT α] {c : Clause} {e : Entity} {v : Value}
    {o : Ordering} {x y : α} (hsubject : c.subject ≠ idField ∧ c.subject ≠ kindField)
    (hv : e.get? c.subject = some v) (ho : v.compareLiteral c.literal.text = some o)
    (horders : Orders o x y) : c.holds e = true ↔ c.op.Relates x y := by
  rw [← horders.accepts_iff, Clause.holds, Entity.compareField, if_neg hsubject.1,
    if_neg hsubject.2, hv, Option.bind_some, ho]

end EntityStore
