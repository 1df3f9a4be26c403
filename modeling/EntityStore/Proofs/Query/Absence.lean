import EntityStore.Proofs.Number.Grammar
import EntityStore.Proofs.Query.Integer
import EntityStore.Proofs.Store.Query
import EntityStore.Proofs.Store.Readable

/-! What is not known satisfies no operator, so that learning an attribute costs no entity its place
in an answer. -/
namespace EntityStore

/-- Answers to the six operators that go together as for two things in order. -/
structure Operator.Trichotomy (answer : Operator → Bool) : Prop where
  one : ∃! op, op ∈ [Operator.lt, .eq, .gt] ∧ answer op = true
  le_iff : answer .le = true ↔ answer .lt = true ∨ answer .eq = true
  ge_iff : answer .ge = true ↔ answer .gt = true ∨ answer .eq = true
  ne_iff : answer .ne = true ↔ answer .lt = true ∨ answer .gt = true

theorem Operator.trichotomy_accepts (o : Ordering) : Trichotomy (·.accepts o) := by
  refine ⟨?_, by cases o <;> decide, by cases o <;> decide, by cases o <;> decide⟩
  cases o with
  | lt =>
    refine ⟨.lt, by decide, fun op hop => ?_⟩
    cases op <;> revert hop <;> decide
  | eq =>
    refine ⟨.eq, by decide, fun op hop => ?_⟩
    cases op <;> revert hop <;> decide
  | gt =>
    refine ⟨.gt, by decide, fun op hop => ?_⟩
    cases op <;> revert hop <;> decide

section Reading

/-- A text that can be read as the type of a value. Whatever is compared as text can be read from
every text; whatever is compared as a number, from the texts of numbers. -/
inductive Value.Legible : Value → String → Prop
  | string (s literal : String) : Legible (.string s) literal
  | boolean (b : Bool) {literal : String}
      (h : Text.folded literal = Text.folded "true" ∨ Text.folded literal = Text.folded "false") :
      Legible (.boolean b) literal
  | integer (n : Int64) {literal : String} (h : Numeral.IsNumber (Text.trim literal.toList)) :
      Legible (.integer n) literal
  | float (x : Binary64) {literal : String} (h : Numeral.IsNumber (Text.trim literal.toList)) :
      Legible (.float x) literal
  | timestamp (t : Timestamp) {u : Timestamp} {literal : String} (h : u.Denotes literal) :
      Legible (.timestamp t) literal
  | duration (d : Span) {literal : String} (h : Numeral.IsNumber (Text.trim literal.toList)) :
      Legible (.duration d) literal
  | list (items : List Json) (literal : String) : Legible (.list items) literal
  | mapping (members : List (String × Json)) (literal : String) :
      Legible (.mapping members) literal

variable {literal : String}

theorem Literal.exists_boolean?_iff : (∃ b, Literal.boolean? literal = some b) ↔
    Text.folded literal = Text.folded "true" ∨ Text.folded literal = Text.folded "false" := by
  unfold Literal.boolean?
  simp only [Text.sameFolded_iff]
  split_ifs with htrue hfalse
  · simp [htrue]
  · simp [hfalse]
  · simp [htrue, hfalse]

namespace Value

theorem exists_compareFloat_iff {x : Binary64} (hx : x.isNaN = false) :
    (∃ o, compareFloat x literal = some o) ↔ Numeral.IsNumber (Text.trim literal.toList) := by
  rw [← Numeral.exists_binary64?_iff]
  unfold compareFloat Literal.float? Binary64.compare?
  cases Numeral.binary64? (Text.trim literal.toList) with
  | none => simp
  | some y => cases hy : y.isNaN <;> simp [hx, hy]

/-- An integer can be compared with each number: with an integer as such, with any other number as a
float. -/
theorem exists_compareInteger_iff (n : ℤ) :
    (∃ o, compareInteger n literal = some o) ↔ Numeral.IsNumber (Text.trim literal.toList) := by
  unfold compareInteger
  cases hread : Literal.integer? literal with
  | none => exact exists_compareFloat_iff (Binary64.isNaN_ofRatio _ _ _)
  | some m =>
    obtain ⟨i, hi, -⟩ := Option.bind_eq_some_iff.mp hread
    have hdenotes := Numeral.integer?_eq_some_iff.mp hi
    simp [hdenotes.isNumber]

/-- A value other than NaN can be compared with the texts that can be read as its type. -/
theorem exists_compareLiteral_iff {v : Value} (hv : ∀ x, v = .float x → x.isNaN = false) :
    (∃ o, v.compareLiteral literal = some o) ↔ v.Legible literal := by
  cases v with
  | string s => exact iff_of_true ⟨_, rfl⟩ (.string s literal)
  | boolean b =>
    have hread : (∃ o, (boolean b).compareLiteral literal = some o) ↔
        ∃ l, Literal.boolean? literal = some l := by
      unfold compareLiteral
      cases Literal.boolean? literal <;> simp
    rw [hread, Literal.exists_boolean?_iff]
    exact ⟨.boolean b, fun | .boolean _ h => h⟩
  | integer n =>
    rw [show (integer n).compareLiteral literal = compareInteger n.toInt literal from rfl,
      exists_compareInteger_iff]
    exact ⟨.integer n, fun | .integer _ h => h⟩
  | float x =>
    rw [show (float x).compareLiteral literal = compareFloat x literal from rfl,
      exists_compareFloat_iff (hv x rfl)]
    exact ⟨.float x, fun | .float _ h => h⟩
  | timestamp t =>
    have hread : (∃ o, (timestamp t).compareLiteral literal = some o) ↔
        ∃ u, Timestamp.parse? literal = some u := by
      unfold compareLiteral
      cases Timestamp.parse? literal <;> simp
    rw [hread]
    simp only [Timestamp.parse?_eq_some_iff]
    constructor
    · rintro ⟨u, hu⟩
      exact .timestamp t hu
    · intro h
      cases h with
      | timestamp _ hu => exact ⟨_, hu⟩
  | duration d =>
    rw [show (duration d).compareLiteral literal = compareInteger d.milliseconds literal from rfl,
      exists_compareInteger_iff]
    exact ⟨.duration d, fun | .duration _ h => h⟩
  | list items => exact iff_of_true ⟨_, rfl⟩ (.list items literal)
  | mapping members => exact iff_of_true ⟨_, rfl⟩ (.mapping members literal)

end Value

end Reading

section Fields

variable {e f : Entity} {name literal : String}

/-- An attribute that cannot be compared with a literal: it is undeclared or absent, or the literal
cannot be read as the type of its value. The id and the kind are always there, and texts. -/
def Entity.Incomparable (e : Entity) (name literal : String) : Prop :=
  name ≠ idField ∧ name ≠ kindField ∧
    (e.kind.attribute? name = none ∨ e.get? name = none ∨
      ∃ v, e.get? name = some v ∧ ¬ v.Legible literal)

namespace Entity

theorem Sound.exists_attribute? {v : Value} (he : e.Sound) (hv : e.get? name = some v) :
    ∃ a, e.kind.attribute? name = some a ∧ v.Stored a := by
  obtain ⟨a, ha, hstored⟩ := he.stored (name, v) (Assoc.mem_of_find? hv)
  obtain ⟨-, -, hdeclared⟩ := declaration_eq_ok_iff.mp ha
  exact ⟨a, hdeclared, hstored⟩

theorem Sound.isNaN_eq_false {x : Binary64} (he : e.Sound) (hv : e.get? name = some (.float x)) :
    x.isNaN = false := by
  obtain ⟨⟨_, type, _⟩, -, hstored⟩ := he.exists_attribute? hv
  cases Value.stored_iff_normal.mp hstored with
  | float _ hx =>
    have hrank : x.rank.val < Binary64.infinityRank := of_decide_eq_true hx
    exact decide_eq_false (by omega)

theorem Sound.compareField_eq_none_iff (he : e.Sound) :
    e.compareField name literal = none ↔ e.Incomparable name literal := by
  unfold compareField Incomparable
  split_ifs with hid hkind
  · simp [hid]
  · simp [hkind]
  cases hv : e.get? name with
  | none => simp [hid, hkind]
  | some v =>
    obtain ⟨a, ha, -⟩ := he.exists_attribute? hv
    have hfloat : ∀ x, v = .float x → x.isNaN = false := by
      rintro x rfl
      exact he.isNaN_eq_false hv
    rw [Option.bind_some, Option.eq_none_iff_forall_ne_some, ← not_exists,
      Value.exists_compareLiteral_iff hfloat]
    simp [hid, hkind, ha]

/-- An entity of the same kind and id that has every attribute of another, with the same value. -/
structure Extends (f e : Entity) : Prop where
  kind_eq : f.kind = e.kind
  id_eq : f.id = e.id
  known : ∀ name v, e.get? name = some v → f.get? name = some v

theorem extends_of_set {v : Value} {ds : List CaseDiagnostic} (habsent : e.get? name = none)
    (h : e.set name v = .ok (f, ds)) : f.Extends e := by
  obtain ⟨a, w, -, -, rfl⟩ := set_eq_ok_iff.mp h
  refine ⟨rfl, rfl, fun other u hu => ?_⟩
  have hne : other ≠ name := by
    rintro rfl
    rw [habsent] at hu
    cases hu
  show Assoc.find? other (Assoc.insert name w e.attributes) = some u
  rwa [Assoc.find?_insert_of_ne hne]

theorem Extends.compareField {o : Ordering} (h : f.Extends e)
    (ho : e.compareField name literal = some o) : f.compareField name literal = some o := by
  unfold Entity.compareField at ho ⊢
  rw [h.id_eq, h.kind_eq]
  split_ifs at ho ⊢ with hid hkind
  · exact ho
  · exact ho
  · obtain ⟨v, hv, hcompare⟩ := Option.bind_eq_some_iff.mp ho
    rw [h.known name v hv, Option.bind_some, hcompare]

end Entity

end Fields

section Answers

variable {e f : Entity} {name : String} {l : Literal}

theorem Clause.holds_of_compareField {c : Clause} {o : Ordering}
    (h : e.compareField c.subject c.literal.text = some o) : c.holds e = c.op.accepts o := by
  unfold Clause.holds
  rw [h]

theorem Clause.trichotomy_of_compareField {o : Ordering}
    (h : e.compareField name l.text = some o) :
    Operator.Trichotomy fun op => Clause.holds ⟨name, op, l⟩ e := by
  have haccepts : (fun op => Clause.holds ⟨name, op, l⟩ e) = (·.accepts o) :=
    funext fun op => Clause.holds_of_compareField (c := ⟨name, op, l⟩) h
  rw [haccepts]
  exact Operator.trichotomy_accepts o

/-- No operator is satisfied exactly where nothing can be compared. -/
theorem Entity.Sound.silent_iff (he : e.Sound) :
    (∀ op, Clause.holds ⟨name, op, l⟩ e = false) ↔ e.Incomparable name l.text := by
  rw [← he.compareField_eq_none_iff]
  constructor
  · intro hsilent
    cases h : e.compareField name l.text with
    | none => rfl
    | some o =>
      obtain ⟨op, ⟨-, hop⟩, -⟩ := (Clause.trichotomy_of_compareField h).one
      rw [hsilent op] at hop
      cases hop
  · intro h op
    unfold Clause.holds
    rw [h]

theorem Clause.trichotomy_or_silent (e : Entity) (name : String) (l : Literal) :
    (Operator.Trichotomy fun op => Clause.holds ⟨name, op, l⟩ e) ∨
      ∀ op, Clause.holds ⟨name, op, l⟩ e = false := by
  cases h : e.compareField name l.text with
  | none =>
    right
    intro op
    unfold Clause.holds
    rw [h]
  | some o => exact .inl (Clause.trichotomy_of_compareField h)

theorem Entity.Extends.holds_clause {c : Clause} (h : f.Extends e) (hc : c.holds e = true) :
    c.holds f = true := by
  cases hcompare : e.compareField c.subject c.literal.text with
  | none =>
    unfold Clause.holds at hc
    rw [hcompare] at hc
    cases hc
  | some o =>
    rw [Clause.holds_of_compareField hcompare] at hc
    rw [Clause.holds_of_compareField (h.compareField hcompare), hc]

/-- Conditions have no negation, so they are monotone in what is known. -/
theorem Entity.Extends.holds {p : Predicate} (h : f.Extends e) (hp : p.holds e = true) :
    p.holds f = true := by
  induction p with
  | clause c => exact h.holds_clause hp
  | join op p q ihp ihq =>
    cases op with
    | and =>
      obtain ⟨hp, hq⟩ := Bool.and_eq_true_iff.mp hp
      exact Bool.and_eq_true_iff.mpr ⟨ihp hp, ihq hq⟩
    | or =>
      refine Bool.or_eq_true_iff.mpr ?_
      rcases Bool.or_eq_true_iff.mp hp with hp | hq
      · exact .inl (ihp hp)
      · exact .inr (ihq hq)

namespace Store

/-- Whether a query has a row for the entity that a file holds. -/
structure Selects (s : Store) (t : Tree) (q : EntityStore.Query) (k : Kind) (file : String)
    (e : Entity) : Prop where
  scope : s.InScope t q.source k
  held : s.Holds t k file e
  meets : ∀ p ∈ q.condition, p.holds e = true

/-- An entity that takes the place of one that it extends is selected wherever the other was. -/
theorem Selects.of_extends {s : Store} {t u : Tree} {q : EntityStore.Query} {k : Kind}
    {file : String} (h : s.Selects t q k file e) (hf : f.Extends e) (hu : u.Proper)
    (hheld : s.Holds u k file f) : s.Selects u q k file f := by
  refine ⟨?_, hheld, ?_⟩
  · have hscope := h.scope
    unfold InScope at hscope ⊢
    cases hsource : q.source with
    | names names => rwa [hsource] at hscope
    | all =>
      obtain ⟨c, hnode⟩ := Tree.isFile_iff.mp hheld.isFile
      have hdir := hu.node?_dropLast hnode
      rw [List.dropLast_concat] at hdir
      exact Tree.isDirectory_iff.mpr hdir
  · exact fun p hp => hf.holds (h.meets p hp)

end Store

/-- A field and a literal satisfy one of `<`, `=` and `>`, with the other operators as they follow,
or no operator at all; the latter exactly where an attribute is undeclared or absent, or the literal
cannot be read as its type. So whatever satisfies a condition does so with more attributes as well:
setting an attribute that was absent costs an entity no row in any answer. -/
theorem Entity.Reachable.trichotomy_and_monotone (he : e.Reachable) :
    (∀ name l, ((Operator.Trichotomy fun op => Clause.holds ⟨name, op, l⟩ e) ∨
        ∀ op, Clause.holds ⟨name, op, l⟩ e = false) ∧
      ((∀ op, Clause.holds ⟨name, op, l⟩ e = false) ↔ e.Incomparable name l.text)) ∧
    (∀ f, f.Extends e → ∀ p : Predicate, p.holds e = true → p.holds f = true) ∧
    ∀ name v f ds, e.get? name = none → e.set name v = .ok (f, ds) →
      ∀ (s : Store) (t u : Tree) q k file, s.Selects t q k file e → u.Proper →
        s.Holds u k file f → s.Selects u q k file f := by
  refine ⟨fun name l => ⟨Clause.trichotomy_or_silent e name l, he.wellFormed.silent_iff⟩, ?_, ?_⟩
  · intro f hf p hp
    exact hf.holds hp
  · intro name v f ds habsent hset s t u q k file hselects hu hheld
    exact hselects.of_extends (Entity.extends_of_set habsent hset) hu hheld

theorem Value.not_legible_nan (n : Int64) : ¬ (Value.integer n).Legible "nan" := by
  intro h
  cases h with
  | integer _ hnumber =>
    obtain ⟨x, hx, hnan⟩ := Numeral.exists_binary64?_iff.mpr hnumber
    have hread : Numeral.binary64? (Text.trim "nan".toList) = some .nan := rfl
    cases hread.symm.trans hx
    exact absurd hnan (by decide)

/-- The link of greatest bandwidth, known to be a logical one. -/
def logicalLink : Entity :=
  ⟨widestLink.id, .networkLink,
    [("bandwidth", .integer 9223372036854775807), ("is_logical", .boolean true)]⟩

/-- A store that holds the record of one link. -/
def linkTree (e : Entity) : Tree := ⟨[(["NetworkLink"], .directory),
  (["NetworkLink", "cd613e30-d8f1-4adf-91b7-584a2265b1f5.json"],
    .file (.text (Store.encode ⟨[], ".", {}⟩ e.toRecord)))]⟩

/-- A query that would drop the link if its absent attribute answered for it. -/
def linkQuery : Query :=
  ⟨.names ["id"], .all, some (.join .or (.clause ⟨"is_logical", .ne, .bare "true"⟩)
    (.clause ⟨"bandwidth", .gt, .bare "1e18"⟩))⟩

theorem Store.holds_linkTree (he : e.WellFormed) (hclock : e.OnClock)
    (hregular : e.toJson.every Json.isRegular = true)
    (hexact : e.toJson.every Json.isExact = true) (hdepth : e.toJson.nesting ≤ 127)
    (hkind : e.kind = .networkLink) (hid : e.id = widestLink.id) :
    Store.Holds ⟨[], ".", {}⟩ (linkTree e) .networkLink
      "cd613e30-d8f1-4adf-91b7-584a2265b1f5.json" e := by
  have hparse := Store.parseMembers?_encode_toRecord ⟨[], ".", {}⟩ hregular hexact
  rw [if_pos (show e.toJson.nesting ≤ Json.Reader.maxDepth from hdepth)] at hparse
  refine ⟨⟨_, e.toRecord, rfl, hparse, he.ofRecord_toRecord_iff.mpr hclock⟩, hkind, ?_⟩
  rw [hid]
  rfl

theorem Entity.trichotomy_and_monotone_widestLink :
    widestLink.Reachable ∧ widestLink.get? "is_logical" = none ∧
      widestLink.set "is_logical" (.boolean true) = .ok (logicalLink, []) ∧
      (∀ op, Clause.holds ⟨"is_logical", op, .bare "true"⟩ widestLink = false) ∧
      (∀ op, Clause.holds ⟨"bandwidth", op, .bare "nan"⟩ widestLink = false) ∧
      Store.Selects ⟨[], ".", {}⟩ (linkTree widestLink) linkQuery .networkLink
        "cd613e30-d8f1-4adf-91b7-584a2265b1f5.json" widestLink ∧
      Store.Selects ⟨[], ".", {}⟩ (linkTree logicalLink) linkQuery .networkLink
        "cd613e30-d8f1-4adf-91b7-584a2265b1f5.json" logicalLink := by
  have habsent : widestLink.get? "is_logical" = none := rfl
  have hset : widestLink.set "is_logical" (.boolean true) = .ok (logicalLink, []) := rfl
  obtain ⟨hanswers, -, hrows⟩ := reachable_widestLink.trichotomy_and_monotone
  have hunset : widestLink.Incomparable "is_logical" "true" := by
    refine ⟨by decide, by decide, .inr (.inl habsent)⟩
  have hnan : widestLink.Incomparable "bandwidth" "nan" := by
    refine ⟨by decide, by decide, .inr (.inr ⟨_, rfl, Value.not_legible_nan _⟩)⟩
  have hwell := reachable_widestLink.wellFormed
  have hbefore : Store.Selects ⟨[], ".", {}⟩ (linkTree widestLink) linkQuery .networkLink
      "cd613e30-d8f1-4adf-91b7-584a2265b1f5.json" widestLink := by
    refine ⟨rfl, ?_, by decide +kernel⟩
    exact Store.holds_linkTree hwell (by decide) (by decide +kernel) (by decide +kernel) (by decide)
      rfl rfl
  have hafter := Store.holds_linkTree (hwell.set hset) (by decide)
    (by decide +kernel) (by decide +kernel) (by decide) rfl rfl
  have hproper : (linkTree logicalLink).Proper := by decide +kernel
  refine ⟨reachable_widestLink, habsent, hset, (hanswers "is_logical" (.bare "true")).2.mpr hunset,
    (hanswers "bandwidth" (.bare "nan")).2.mpr hnan, hbefore, ?_⟩
  exact hrows _ _ _ _ habsent hset _ _ _ _ _ _ hbefore hproper hafter

end Answers

end EntityStore
