import EntityStore.Query.Condition
import EntityStore.Query.Eval
import Mathlib.Tactic.SplitIfs

/-! The grammar of conditions over tokens, read in any algebra of clauses and connectives. -/
namespace EntityStore

/-- The keyword of a connective. -/
def Connective.word : Connective → String
  | .and => "AND"
  | .or => "OR"

namespace Condition

/-- A word that is a connective's keyword in some ASCII letter case. -/
def IsKeyword (op : Connective) (cs : List Char) : Prop :=
  cs.map Char.toLower = op.word.toList.map Char.toLower

/-- A word that is no keyword. -/
def IsPlain (cs : List Char) : Prop := ∀ op, ¬ IsKeyword op cs

/-- The literal that a token is: a quoted text, or a plain word. -/
inductive IsLiteral : Token → Literal → Prop
  | quoted (cs : List Char) : IsLiteral (.quoted cs) (.quoted (String.ofList cs))
  | bare {cs : List Char} (h : IsPlain cs) : IsLiteral (.word cs) (.bare (String.ofList cs))

/-- What clauses and connectives mean. -/
structure Reading (α : Type) where
  clause : Clause → α
  join : Connective → α → α → α

mutual

/-- `term := '(' predicate ')' | attribute op literal`, with its value. -/
inductive Term {α : Type} (r : Reading α) : List Token → α → Prop
  | parens {ts : List Token} {v : α} (h : Chain r ts v) :
      Term r (.leftParen :: (ts ++ [.rightParen])) v
  | clause {cs : List Char} {t : Token} {l : Literal} (op : Operator) (hc : IsPlain cs)
      (hl : IsLiteral t l) :
      Term r [.word cs, .op op.symbol.toList, t] (r.clause ⟨String.ofList cs, op, l⟩)

/-- `predicate := term ((AND|OR) term)*`, with its value: the terms joined from left to right, both
connectives being of one rank. -/
inductive Chain {α : Type} (r : Reading α) : List Token → α → Prop
  | term {ts : List Token} {v : α} (h : Term r ts v) : Chain r ts v
  | link {ts us : List Token} {v w : α} {op : Connective} {cs : List Char} (h : Chain r ts v)
      (hop : IsKeyword op cs) (hu : Term r us w) :
      Chain r (ts ++ .word cs :: us) (r.join op v w)

end

/-- The reading as a tree. -/
def trees : Reading Predicate := ⟨.clause, .join⟩

/-- The reading as a truth value of an entity. -/
def truth (e : Entity) : Reading Bool where
  clause c := c.holds e
  join
    | .and, a, b => a && b
    | .or, a, b => a || b

/-- The value of a tree. -/
def Reading.value {α : Type} (r : Reading α) : Predicate → α
  | .clause c => r.clause c
  | .join op p q => r.join op (r.value p) (r.value q)

theorem value_truth (e : Entity) (p : Predicate) : (truth e).value p = p.holds e := by
  induction p with
  | clause c => rfl
  | join op p q hp hq =>
    cases op <;> simp only [Reading.value, truth, Predicate.holds] at hp hq ⊢ <;> rw [hp, hq]

mutual

/-- A term that is read as a tree is read as the value of the tree. -/
theorem Term.value {α : Type} (r : Reading α) {ts : List Token} {p : Predicate} :
    Term trees ts p → Term r ts (r.value p)
  | .parens h => .parens (h.value r)
  | .clause op hc hl => .clause op hc hl

theorem Chain.value {α : Type} (r : Reading α) {ts : List Token} {p : Predicate} :
    Chain trees ts p → Chain r ts (r.value p)
  | .term h => .term (h.value r)
  | .link h hop hu => .link (h.value r) hop (hu.value r)

end

mutual

/-- A term that has a value has a tree with this value. -/
theorem Term.exists_tree {α : Type} {r : Reading α} {ts : List Token} {v : α} :
    Term r ts v → ∃ p, Term trees ts p ∧ r.value p = v
  | .parens h => by
    obtain ⟨p, hp, hv⟩ := h.exists_tree
    exact ⟨p, .parens hp, hv⟩
  | .clause op hc hl => ⟨_, .clause op hc hl, rfl⟩

theorem Chain.exists_tree {α : Type} {r : Reading α} {ts : List Token} {v : α} :
    Chain r ts v → ∃ p, Chain trees ts p ∧ r.value p = v
  | .term h => by
    obtain ⟨p, hp, hv⟩ := h.exists_tree
    exact ⟨p, .term hp, hv⟩
  | .link h hop hu => by
    obtain ⟨p, hp, rfl⟩ := h.exists_tree
    obtain ⟨q, hq, rfl⟩ := hu.exists_tree
    exact ⟨_, .link hp hop hq, rfl⟩

end

end Condition

namespace Token

open Condition

theorem connective?_eq_some_iff {t : Token} {op : Connective} :
    t.connective? = some op ↔ ∃ cs, t = .word cs ∧ IsKeyword op cs := by
  cases t with
  | word cs =>
    have hand : Connective.and.word.toList.map Char.toLower = "and".toList := by decide
    have hor : Connective.or.word.toList.map Char.toLower = "or".toList := by decide
    have hne : "and".toList ≠ "or".toList := by decide
    simp only [connective?, Token.word.injEq, exists_eq_left', IsKeyword]
    split_ifs with h₁ h₂
    · cases op with
      | and => simp [hand, h₁]
      | or => simp only [hor, h₁, hne, Option.some.injEq, reduceCtorEq]
    · cases op with
      | and => simp only [hand, h₁, Option.some.injEq, reduceCtorEq]
      | or => simp [hor, h₂]
    · cases op with
      | and => simp only [hand, h₁]
      | or => simp only [hor, h₂]
  | leftParen | rightParen | quoted | op => simp [connective?]

theorem connective?_word_eq_none_iff {cs : List Char} :
    (Token.word cs).connective? = none ↔ IsPlain cs := by
  rw [Option.eq_none_iff_forall_ne_some]
  refine forall_congr' fun op => not_congr ?_
  rw [connective?_eq_some_iff]
  simp

theorem name?_eq_some_iff {t : Token} {s : String} :
    t.name? = some s ↔ ∃ cs, t = .word cs ∧ IsPlain cs ∧ String.ofList cs = s := by
  cases t with
  | word cs =>
    simp only [name?, Token.word.injEq, exists_eq_left', ← connective?_word_eq_none_iff]
    cases (Token.word cs).connective? <;> simp
  | leftParen | rightParen | quoted | op => simp [name?]

theorem operator?_eq_some_iff {t : Token} {op : Operator} :
    t.operator? = some op ↔ t = .op op.symbol.toList := by
  cases t with
  | op cs =>
    have hsymbol (o : Operator) : Operator.ofSymbol? o.symbol = some o := by cases o <;> decide
    simp only [operator?, Token.op.injEq]
    constructor
    · intro h
      have := List.find?_some h
      simp only [beq_iff_eq] at this
      rw [this, String.toList_ofList]
    · rintro rfl
      rw [String.ofList_toList, hsymbol]
  | leftParen | rightParen | quoted | word => simp [operator?]

theorem literal?_eq_some_iff {t : Token} {l : Literal} : t.literal? = some l ↔ IsLiteral t l := by
  constructor
  · intro h
    cases t with
    | quoted cs =>
      cases h
      exact .quoted cs
    | word cs =>
      obtain ⟨s, hs, rfl⟩ := Option.map_eq_some_iff.mp h
      obtain ⟨_, hcs, hp, rfl⟩ := name?_eq_some_iff.mp hs
      cases hcs
      exact .bare hp
    | leftParen | rightParen | op => cases h
  · intro h
    cases h with
    | quoted cs => rfl
    | bare hp => exact Option.map_eq_some_iff.mpr ⟨_, name?_eq_some_iff.mpr ⟨_, rfl, hp, rfl⟩, rfl⟩

end Token

end EntityStore
