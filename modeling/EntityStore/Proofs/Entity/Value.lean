import EntityStore.Entity.Value
import EntityStore.Proofs.Number.Nearest
import EntityStore.Proofs.Time.Grammar

/-! Checked values: a second check changes nothing, and the JSON form is read back, up to leap
seconds that no clock shows. -/
namespace EntityStore

namespace Span

theorem milliseconds_truncate (d : Span) : d.truncate.milliseconds = d.milliseconds :=
  Int.mul_tdiv_cancel _ (by decide)

@[simp] theorem truncate_truncate (d : Span) : d.truncate.truncate = d.truncate := by
  unfold truncate
  simp only [mk.injEq]
  rw [show (⟨d.milliseconds * 1000000, _⟩ : Span) = d.truncate from rfl, milliseconds_truncate]

/-- Whole milliseconds denote the span cut to them. -/
theorem ofMilliseconds?_milliseconds (d : Span) :
    ofMilliseconds? d.milliseconds = some d.truncate := dif_pos d.truncate.bounded

end Span

theorem Numeral.int64?_toInt (n : Int64) : Numeral.int64? n.toInt = some n := by
  have hlo := n.le_toInt
  have hhi := n.toInt_lt
  unfold int64? int64Limit
  rw [if_pos ⟨by omega, by omega⟩, Int64.ofInt_toInt]

namespace Value

/-- A value as it is stored for a declaration: checking it yields it. -/
def Stored (a : Attribute) (v : Value) : Prop := ∃ ds, v.validate a = .ok (v, ds)

/-- What a declaration admits: a value, the value that is stored for it, and the diagnostics. -/
inductive Admits (name : String) : AttributeType → Value → Value → List CaseDiagnostic → Prop
  | string (s : String) : Admits name .string (string s) (string s) []
  | boolean (b : Bool) : Admits name .boolean (boolean b) (boolean b) []
  | integer (n : Int64) : Admits name .integer (integer n) (integer n) []
  | whole (n : Int64) : Admits name .float (integer n) (float (.ofInt n.toInt)) []
  | float (x : Binary64) (h : x.isFinite = true) : Admits name .float (float x) (float x) []
  | timestamp (t : Timestamp) (h : 0 ≤ t.date.year ∧ t.date.year ≤ 9999) :
      Admits name .timestamp (timestamp t) (timestamp t) []
  | duration (d : Span) : Admits name .duration (duration d) (duration d.truncate) []
  | list (items : List Json) : Admits name .list (list items) (list items) []
  | stringList (items : List Json) (ts : List String) (h : texts items = .ok ts) :
      Admits name .stringList (list items) (list items) []
  | mapping (members : List (String × Json)) :
      Admits name .mapping (mapping members) (mapping members) []
  | option (e : Enumeration) (s : String) (d : Option CaseDiagnostic)
      (h : e.check name s = .ok d) : Admits name (.option e) (string s) (string s) d.toList
  | optionList (e : Enumeration) (items : List Json) (ts : List String)
      (ds : List CaseDiagnostic) (ht : texts items = .ok ts) (h : e.checkAll name ts = .ok ds) :
      Admits name (.optionList e) (list items) (list items) ds

theorem validate_of_admits {a : Attribute} {v w : Value} {ds : List CaseDiagnostic}
    (h : Admits a.name a.type v w ds) : v.validate a = .ok (w, ds) := by
  obtain ⟨name, type, required⟩ := a
  cases h with
  | float x hx => exact if_pos hx
  | timestamp t ht => exact if_pos ht
  | stringList items ts ht => simp only [validate, ht]
  | option e s d hd =>
    simp only [validate, hd]
    rfl
  | optionList e items ts ds ht hd =>
    simp only [validate, ht, hd]
    rfl
  | _ => rfl

theorem admits_of_validate {a : Attribute} {v w : Value} {ds : List CaseDiagnostic}
    (h : v.validate a = .ok (w, ds)) : Admits a.name a.type v w ds := by
  obtain ⟨name, type, required⟩ := a
  unfold validate at h
  dsimp only at h ⊢
  -- One case for each way to be admitted, in the order of the constructors, and one for all else.
  split at h
  · cases h; exact .string _
  · cases h; exact .boolean _
  · cases h; exact .integer _
  · cases h; exact .whole _
  · split_ifs at h with hx
    cases h
    exact .float _ hx
  · split_ifs at h with hy
    cases h
    exact .timestamp _ hy
  · cases h; exact .duration _
  · cases h; exact .list _
  · split at h
    next ts ht => cases h; exact .stringList _ ts ht
    next => cases h
  · cases h; exact .mapping _
  · next e s =>
    cases hd : e.check name s with
    | error => simp only [hd] at h; cases h
    | ok d => simp only [hd] at h; cases h; exact .option e s d hd
  · next e items =>
    split at h
    next ts ht =>
      cases hd : e.checkAll name ts with
      | error => simp only [hd] at h; cases h
      | ok ds => simp only [hd] at h; cases h; exact .optionList e items ts _ ht hd
    next => cases h
  · cases h

theorem validate_eq_ok_iff {a : Attribute} {v w : Value} {ds : List CaseDiagnostic} :
    v.validate a = .ok (w, ds) ↔ Admits a.name a.type v w ds :=
  ⟨admits_of_validate, validate_of_admits⟩

/-- Whether clocks show the value, if it is an instant. -/
def OnClock : Value → Prop
  | timestamp t => t.OnClock
  | _ => True

instance (v : Value) : Decidable v.OnClock :=
  match v with
  | timestamp t => inferInstanceAs (Decidable t.OnClock)
  | string _ | boolean _ | integer _ | float _ | duration _ | list _ | mapping _ => .isTrue trivial

/-- The value, or the instant that clocks show for it. -/
def carried : Value → Value
  | timestamp t => timestamp t.carried
  | v => v

theorem carried_eq_self_iff {v : Value} : v.carried = v ↔ v.OnClock := by
  cases v with
  | timestamp t =>
    rw [carried, timestamp.injEq]
    exact Timestamp.carried_eq_self_iff
  | _ => exact iff_of_true rfl trivial

/-- A check stores the instant that it is given. -/
theorem onClock_congr_of_validate {a : Attribute} {v w : Value} {ds : List CaseDiagnostic}
    (h : v.validate a = .ok (w, ds)) : w.OnClock ↔ v.OnClock := by
  obtain ⟨name, type, required⟩ := a
  cases admits_of_validate h <;> rfl

theorem isFinite_ofInt64 (n : Int64) : (Binary64.ofInt n.toInt).isFinite = true := by
  have hlo := n.le_toInt
  have hhi := n.toInt_lt
  have hsize : n.toInt.natAbs < 2 ^ 64 := by omega
  exact (Binary64.nearest_ofInt hsize).finite

/-- What a check yields passes it again, with the same diagnostics. -/
theorem validate_validate {a : Attribute} {v w : Value} {ds : List CaseDiagnostic}
    (h : v.validate a = .ok (w, ds)) : w.validate a = .ok (w, ds) := by
  obtain ⟨name, type, required⟩ := a
  apply validate_of_admits
  dsimp only
  cases admits_of_validate h with
  | whole n => exact .float _ (isFinite_ofInt64 n)
  | duration d =>
    have hd : Admits name .duration (duration d.truncate) (duration d.truncate.truncate) [] :=
      .duration d.truncate
    rwa [Span.truncate_truncate] at hd
  | string => exact .string _
  | boolean => exact .boolean _
  | integer => exact .integer _
  | float x hx => exact .float x hx
  | timestamp t ht => exact .timestamp t ht
  | list => exact .list _
  | stringList _ ts ht => exact .stringList _ ts ht
  | mapping => exact .mapping _
  | option e s d hd => exact .option e s d hd
  | optionList e _ ts ds ht hd => exact .optionList e _ ts ds ht hd

/-- What is stored is admitted as the instant that clocks show for it, which is one of the same
day. -/
theorem validate_carried {a : Attribute} {v w : Value} {ds : List CaseDiagnostic}
    (h : v.validate a = .ok (w, ds)) : w.carried.validate a = .ok (w.carried, ds) := by
  have hagain := validate_validate h
  cases w with
  | timestamp t =>
    obtain ⟨name, type, required⟩ := a
    cases admits_of_validate hagain with
    | timestamp _ ht =>
      rw [← Timestamp.date_carried] at ht
      exact validate_of_admits (.timestamp _ ht)
  | _ => exact hagain

/-- The JSON form of a value that passes its check is read as the value that the check yields, up to
a leap second that no clock shows: both make whole numbers floats where floats are declared, and cut
durations to milliseconds. -/
theorem ofJson_toJson_of_validate {a : Attribute} {v w : Value} {ds : List CaseDiagnostic}
    (h : v.validate a = .ok (w, ds)) : ofJson a v.toJson = .ok w.carried := by
  obtain ⟨name, type, required⟩ := a
  cases admits_of_validate h with
  | integer n =>
    simp only [ofJson, toJson, carried, Numeral.int64?_toInt, Option.map_some, Option.elim_some]
  | whole n => rfl
  | float x hx => simp only [ofJson, toJson, carried, hx, if_true]
  | timestamp t ht =>
    simp only [ofJson, toJson, carried, Timestamp.parse?_render t ht.1 ht.2, Option.map_some,
      Option.elim_some]
  | duration d =>
    simp only [ofJson, toJson, carried, Span.ofMilliseconds?_milliseconds, Option.map_some,
      Option.elim_some]
  | _ => rfl

/-- What a check yields is read back from its JSON form, up to a leap second that no clock shows. -/
theorem ofJson_toJson {a : Attribute} {v w : Value} {ds : List CaseDiagnostic}
    (h : v.validate a = .ok (w, ds)) : ofJson a w.toJson = .ok w.carried :=
  ofJson_toJson_of_validate (validate_validate h)

end Value

end EntityStore
