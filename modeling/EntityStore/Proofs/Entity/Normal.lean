import EntityStore.Proofs.Entity.Value
import EntityStore.Proofs.Except

/-! Normal forms of values: what a declared type stores, and what its check leaves as it is. -/
namespace EntityStore

namespace Enumeration

/-- Whether a text is one of the options, in whatever ASCII letter case. -/
def Allows (e : Enumeration) (s : String) : Prop := ∃ o ∈ e.options, Text.folded o = Text.folded s

theorem canonical?_isSome_iff {e : Enumeration} {s : String} :
    (e.canonical? s).isSome = true ↔ e.Allows s := by
  unfold canonical? Allows
  rw [List.find?_isSome]
  simp only [Text.sameFolded_iff]

theorem mem_of_canonical? {e : Enumeration} {s c : String}
    (h : e.canonical? s = some c) : c ∈ e.options ∧ Text.folded c = Text.folded s := by
  unfold canonical? at h
  have hfolded := List.find?_some h
  exact ⟨List.mem_of_find?_eq_some h, Text.sameFolded_iff.mp hfolded⟩

theorem exists_check_iff {e : Enumeration} {name s : String} :
    (∃ d, e.check name s = .ok d) ↔ e.Allows s := by
  rw [← canonical?_isSome_iff]
  unfold check
  cases e.canonical? s <;> simp

theorem exists_checkAll_iff {e : Enumeration} {name : String} {ts : List String} :
    (∃ ds, e.checkAll name ts = .ok ds) ↔ ∀ s ∈ ts, e.Allows s := by
  induction ts with
  | nil => simp [checkAll]
  | cons t ts ih =>
    have hfirst : (∃ d, e.check name t = .ok d) ↔ e.Allows t := exists_check_iff
    rw [List.forall_mem_cons, ← ih, ← hfirst]
    simp only [checkAll, Except.bind_eq_ok_iff, Except.pure_eq_ok, Except.ok.injEq]
    constructor
    · rintro ⟨_, d, hd, ds, hds, -⟩
      exact ⟨⟨d, hd⟩, ds, hds⟩
    · rintro ⟨⟨d, hd⟩, ds, hds⟩
      exact ⟨d.toList ++ ds, d, hd, ds, hds, rfl⟩

end Enumeration

namespace Span

theorem milliseconds_mul_eq_iff {d : Span} :
    d.milliseconds * 1000000 = d.nanoseconds ↔ 1000000 ∣ d.nanoseconds := by
  constructor
  · intro h
    exact ⟨d.milliseconds, by rw [← h, Int.mul_comm]⟩
  · intro h
    exact Int.tdiv_mul_cancel h

theorem truncate_eq_self_iff {d : Span} : d.truncate = d ↔ 1000000 ∣ d.nanoseconds := by
  rw [← milliseconds_mul_eq_iff]
  constructor
  · intro h
    exact congrArg nanoseconds h
  · intro h
    unfold truncate
    cases d
    simp only [mk.injEq]
    exact h

end Span

namespace Value

theorem texts_eq_ok_iff {items : List Json} {ts : List String} :
    texts items = .ok ts ↔ items = ts.map Json.str := by
  induction items generalizing ts with
  | nil => cases ts <;> simp [texts]
  | cons j rest ih =>
    cases j with
    | str s =>
      rw [texts, Except.map_eq_ok_iff]
      constructor
      · rintro ⟨us, hus, rfl⟩
        rw [List.map_cons, ih.mp hus]
      · intro h
        cases ts with
        | nil => cases h
        | cons u us =>
          rw [List.map_cons, List.cons.injEq, Json.str.injEq] at h
          exact ⟨us, ih.mpr h.2, by rw [h.1]⟩
    | _ => cases ts <;> simp [texts]

/-- A value in the form that a type stores. -/
inductive Normal : AttributeType → Value → Prop
  | string (s : String) : Normal .string (string s)
  | boolean (b : Bool) : Normal .boolean (boolean b)
  | integer (n : Int64) : Normal .integer (integer n)
  | float (x : Binary64) (h : x.isFinite = true) : Normal .float (float x)
  | timestamp (t : Timestamp) (h : 0 ≤ t.date.year ∧ t.date.year ≤ 9999) :
      Normal .timestamp (timestamp t)
  | duration (d : Span) (h : 1000000 ∣ d.nanoseconds) : Normal .duration (duration d)
  | list (items : List Json) : Normal .list (list items)
  | stringList (ts : List String) : Normal .stringList (list (ts.map .str))
  | mapping (members : List (String × Json)) : Normal .mapping (mapping members)
  | option (e : Enumeration) (s : String) (h : e.Allows s) : Normal (.option e) (string s)
  | optionList (e : Enumeration) (ts : List String) (h : ∀ s ∈ ts, e.Allows s) :
      Normal (.optionList e) (list (ts.map .str))

/-- A check yields normal forms only. -/
theorem normal_of_validate {a : Attribute} {v w : Value} {ds : List CaseDiagnostic}
    (h : v.validate a = .ok (w, ds)) : w.Normal a.type := by
  obtain ⟨name, type, required⟩ := a
  cases admits_of_validate h with
  | string s => exact .string s
  | boolean b => exact .boolean b
  | integer n => exact .integer n
  | whole n => exact .float _ (isFinite_ofInt64 n)
  | float x hx => exact .float x hx
  | timestamp t ht => exact .timestamp t ht
  | duration d =>
    have hd : d.truncate.truncate = d.truncate := Span.truncate_truncate d
    exact .duration _ (Span.truncate_eq_self_iff.mp hd)
  | list items => exact .list items
  | stringList items ts ht =>
    rw [texts_eq_ok_iff.mp ht]
    exact .stringList ts
  | mapping members => exact .mapping members
  | option e s d hd => exact .option e s (Enumeration.exists_check_iff.mp ⟨d, hd⟩)
  | optionList e items ts ds ht hd =>
    rw [texts_eq_ok_iff.mp ht]
    exact .optionList e ts (Enumeration.exists_checkAll_iff.mp ⟨ds, hd⟩)

/-- What the check of a declaration leaves as it is are the normal forms of the declared type. -/
theorem stored_iff_normal {a : Attribute} {v : Value} : v.Stored a ↔ v.Normal a.type := by
  constructor
  · rintro ⟨ds, h⟩
    exact normal_of_validate h
  · intro h
    obtain ⟨name, type, required⟩ := a
    unfold Stored
    simp only [validate_eq_ok_iff]
    cases h with
    | string s => exact ⟨[], .string s⟩
    | boolean b => exact ⟨[], .boolean b⟩
    | integer n => exact ⟨[], .integer n⟩
    | float x hx => exact ⟨[], .float x hx⟩
    | timestamp t ht => exact ⟨[], .timestamp t ht⟩
    | duration d hd =>
      have hself : Admits name .duration (duration d) (duration d.truncate) [] := .duration d
      rw [Span.truncate_eq_self_iff.mpr hd] at hself
      exact ⟨[], hself⟩
    | list items => exact ⟨[], .list items⟩
    | stringList ts => exact ⟨[], .stringList _ ts (texts_eq_ok_iff.mpr rfl)⟩
    | mapping members => exact ⟨[], .mapping members⟩
    | option e s hs =>
      obtain ⟨d, hd⟩ : ∃ d, e.check name s = .ok d := Enumeration.exists_check_iff.mpr hs
      exact ⟨d.toList, .option e s d hd⟩
    | optionList e ts hs =>
      obtain ⟨ds, hds⟩ : ∃ ds, e.checkAll name ts = .ok ds :=
        Enumeration.exists_checkAll_iff.mpr hs
      exact ⟨ds, .optionList e _ ts ds (texts_eq_ok_iff.mpr rfl) hds⟩

end Value

end EntityStore
