import EntityStore.Proofs.Entity.Invariant
import EntityStore.Proofs.Entity.Normal
import EntityStore.Proofs.Json.Basic

/-! Equality of entities, where floats are compared by value. An entity equals itself, unless a NaN
stands in it. -/
namespace EntityStore

theorem Binary64.sameValue_self {x : Binary64} (h : x.isFinite = true) : x.sameValue x = true := by
  have hlt : x.rank.val < infinityRank := of_decide_eq_true h
  have hnan : x.isNaN = false := decide_eq_false (by omega)
  rw [sameValue, compare?, hnan, Bool.or_self, if_neg Bool.false_ne_true, beq_iff_eq,
    Int.compare_eq_eq.mpr rfl]

namespace Json

/-- Whether a value is no float, or a finite one. -/
def isFinite : Json → Bool
  | float x => x.isFinite
  | _ => true

theorem sameItems_self {xs : List Json} (h : ∀ x ∈ xs, x.same x = true) :
    sameItems xs xs = true := by
  induction xs with
  | nil => rfl
  | cons x xs ih =>
    obtain ⟨hx, hxs⟩ := List.forall_mem_cons.mp h
    rw [sameItems, hx, ih hxs, Bool.and_self]

theorem sameMembers_self {ms : List (String × Json)} (h : ∀ m ∈ ms, m.2.same m.2 = true) :
    sameMembers ms ms = true := by
  induction ms with
  | nil => rfl
  | cons m ms ih =>
    obtain ⟨hm, hms⟩ := List.forall_mem_cons.mp h
    rw [sameMembers, hm, ih hms, beq_self_eq_true, Bool.and_self, Bool.and_self]

theorem same_self {j : Json} (h : j.every isFinite = true) : j.same j = true := by
  induction j using induct with
  | null => rfl
  | bool b => exact beq_self_eq_true b
  | int n => exact beq_self_eq_true n
  | float x => exact Binary64.sameValue_self (of_every h)
  | str s => exact beq_self_eq_true s
  | arr xs ih =>
    have hitems := (every_arr_iff.mp h).2
    exact sameItems_self fun x hx => ih x hx (hitems x hx)
  | obj ms ih =>
    have hmembers := (every_obj_iff.mp h).2
    exact sameMembers_self fun m hm => ih m hm (hmembers m hm)

end Json

theorem Value.same_self {a : Attribute} {v : Value} (hv : v.Stored a)
    (h : v.toJson.every Json.isFinite = true) : v.same v = true := by
  obtain ⟨name, type, required⟩ := a
  cases v with
  | float x =>
    cases stored_iff_normal.mp hv with
    | float _ hx => exact Binary64.sameValue_self hx
  | list items => exact Json.same_self h
  | mapping members => exact Json.same_self h
  | _ => exact beq_self_eq_true _

namespace Entity

variable {e f : Entity}

/-- Each float in the JSON form of an entity is finite, as a number in a JSON text is. -/
def Finite (e : Entity) : Prop := ∀ p ∈ e.attributes, p.2.toJson.every Json.isFinite = true

instance (e : Entity) : Decidable e.Finite := inferInstanceAs (Decidable (∀ p ∈ _, _))

theorem sameAttributes_self {m : List (String × Value)} (h : ∀ p ∈ m, p.2.same p.2 = true) :
    sameAttributes m m = true := by
  induction m with
  | nil => rfl
  | cons p m ih =>
    obtain ⟨hp, hm⟩ := List.forall_mem_cons.mp h
    rw [sameAttributes, hp, ih hm, beq_self_eq_true, Bool.and_self, Bool.and_self]

theorem Sound.same_self (he : e.Sound) (hfinite : e.Finite) : e.same e = true := by
  have hattributes : sameAttributes e.attributes e.attributes = true := by
    refine sameAttributes_self fun p hp => ?_
    obtain ⟨a, -, hstored⟩ := he.stored p hp
    exact Value.same_self hstored (hfinite p hp)
  rw [same, hattributes, beq_self_eq_true, beq_self_eq_true, Bool.and_self, Bool.and_self]

theorem same_of_sameAttributes {name : String} {v w : Value} {m n : List (String × Value)}
    (h : sameAttributes m n = true) (hv : Assoc.find? name m = some v)
    (hw : Assoc.find? name n = some w) : v.same w = true := by
  induction m generalizing n with
  | nil => cases hv
  | cons p m ih =>
    cases n with
    | nil => cases hw
    | cons q n =>
      simp only [sameAttributes, Bool.and_eq_true, beq_iff_eq] at h
      obtain ⟨⟨hname, hsame⟩, hrest⟩ := h
      rw [Assoc.find?] at hv hw
      by_cases hp : p.1 = name
      · rw [if_pos hp] at hv
        rw [if_pos (hname ▸ hp)] at hw
        cases hv
        cases hw
        exact hsame
      · rw [if_neg hp] at hv
        rw [if_neg (hname ▸ hp)] at hw
        exact ih hrest hv hw

/-- Equal entities have equal values of an attribute. -/
theorem same_of_same {name : String} {v w : Value} (h : e.same f = true)
    (hv : e.get? name = some v) (hw : f.get? name = some w) : v.same w = true :=
  same_of_sameAttributes (Bool.and_eq_true_iff.mp h).2 hv hw

end Entity

end EntityStore
