import EntityStore.Proofs.Query.Clauses
import EntityStore.Proofs.Query.Condition
import EntityStore.Proofs.Query.Lexer

/-! Conditions written as text are read back, whatever their quoted literals hold. -/
namespace EntityStore

/-- A word that can stand for an attribute or a literal. -/
structure Condition.IsWord (s : String) : Prop where
  ne_nil : s.toList ≠ []
  chars : ∀ c ∈ s.toList, Lexer.isWordChar c = true
  plain : Condition.IsPlain s.toList

theorem Condition.isWord_iff {s : String} : IsWord s ↔ s.toList ≠ [] ∧
    s.toList.all Lexer.isWordChar = true ∧ (Token.word s.toList).connective? = none := by
  rw [List.all_eq_true, Token.connective?_word_eq_none_iff]
  exact ⟨fun h => ⟨h.ne_nil, h.chars, h.plain⟩, fun h => ⟨h.1, h.2.1, h.2.2⟩⟩

instance (s : String) : Decidable (Condition.IsWord s) := decidable_of_iff' _ Condition.isWord_iff

/-- A literal that can be written; between quotes, any text can. -/
def Literal.Expressible : Literal → Prop
  | .quoted _ => True
  | .bare s => Condition.IsWord s

instance : (l : Literal) → Decidable l.Expressible
  | .quoted _ => .isTrue trivial
  | .bare s => inferInstanceAs (Decidable (Condition.IsWord s))

def Literal.token : Literal → Token
  | .quoted s => .quoted s.toList
  | .bare s => .word s.toList

namespace Predicate

/-- A predicate that can be written. -/
def Expressible : Predicate → Prop
  | .clause c => Condition.IsWord c.subject ∧ c.literal.Expressible
  | .join _ p q => p.Expressible ∧ q.Expressible

instance decidableExpressible : (p : Predicate) → Decidable p.Expressible
  | .clause c => inferInstanceAs (Decidable (Condition.IsWord c.subject ∧ c.literal.Expressible))
  | .join _ p q =>
    have := decidableExpressible p
    have := decidableExpressible q
    inferInstanceAs (Decidable (p.Expressible ∧ q.Expressible))

/-- The tokens of an operand: those of a compound one stand in parentheses. -/
def enclosed (ts : List Token) : Predicate → List Token
  | .clause _ => ts
  | .join .. => .leftParen :: (ts ++ [.rightParen])

/-- The tokens that a predicate is written with, connectives in any letter case. -/
inductive Phrased : Predicate → List Token → Prop
  | clause (c : Clause) :
      Phrased (.clause c) [.word c.subject.toList, .op c.op.symbol.toList, c.literal.token]
  | join {op : Connective} {cs : List Char} {p q : Predicate} {ts us : List Token}
      (hop : Condition.IsKeyword op cs) (hp : Phrased p ts) (hq : Phrased q us) :
      Phrased (.join op p q) (p.enclosed ts ++ .word cs :: q.enclosed us)

/-- A text of a predicate: its tokens with white space in between. -/
def Written (p : Predicate) (text : List Char) : Prop :=
  Text.Tight text ∧ ∃ tokens : List Token.At, Renders 0 tokens text ∧
    p.Phrased (tokens.map (·.token))

end Predicate

section Reading

open Condition

variable {p : Predicate} {ts : List Token} {text : List Char}

theorem Literal.isLiteral {l : Literal} (h : l.Expressible) : IsLiteral l.token l := by
  cases l with
  | quoted s =>
    have := IsLiteral.quoted s.toList
    rwa [String.ofList_toList] at this
  | bare s =>
    have := IsLiteral.bare h.plain
    rwa [String.ofList_toList] at this

theorem Literal.wellFormed {l : Literal} (h : l.Expressible) : l.token.WellFormed := by
  cases l with
  | quoted => trivial
  | bare s => exact ⟨h.ne_nil, h.chars⟩

theorem Lexer.isWordChar_of_toLower {c : Char} (h : isWordChar c.toLower = true) :
    isWordChar c = true := by
  unfold Char.toLower at h
  split at h
  next hcapital =>
    have hupper : c.isUpper = true := decide_eq_true hcapital
    have halpha : c.isAlphanum = true := by
      show (c.isUpper || c.isLower || c.isDigit) = true
      rw [hupper, Bool.true_or, Bool.true_or]
    simp [isWordChar, Text.isAlphanumeric_of_isAlphanum halpha]
  next => exact h

/-- A keyword is a word in any letter case. -/
theorem Query.Spells.wellFormed {keyword cs : List Char} (h : Spells keyword cs)
    (hne : keyword ≠ []) (hkeyword : keyword.all (fun k => Lexer.isWordChar k.toLower) = true) :
    (Token.word cs).WellFormed :=
  ⟨h.ne_nil hne, h.forall_mem (List.all_eq_true.mp hkeyword) fun _ => Lexer.isWordChar_of_toLower⟩

theorem Condition.IsKeyword.wellFormed {op : Connective} {cs : List Char} (h : IsKeyword op cs) :
    (Token.word cs).WellFormed := by
  have hspells : Query.Spells op.word.toList cs := h
  cases op <;> exact hspells.wellFormed (by decide) (by decide)

theorem Operator.wellFormed (op : Operator) : (Token.op op.symbol.toList).WellFormed := by
  cases op <;> exact ⟨by decide, List.all_eq_true.mp (by decide)⟩

namespace Predicate

/-- The tokens of a predicate are a sentence with this predicate as its tree, and a term when they
are enclosed. -/
theorem Phrased.sentence (h : p.Phrased ts) (hp : p.Expressible) :
    Chain trees ts p ∧ Term trees (p.enclosed ts) p := by
  induction h with
  | clause c =>
    have hterm := Term.clause (r := trees) c.op hp.1.plain (Literal.isLiteral hp.2)
    rw [String.ofList_toList] at hterm
    exact ⟨.term hterm, hterm⟩
  | join hop _ _ ihp ihq =>
    obtain ⟨-, hleft⟩ := ihp hp.1
    obtain ⟨-, hright⟩ := ihq hp.2
    have hchain := (Chain.term hleft).link hop hright
    exact ⟨hchain, .parens hchain⟩

theorem Phrased.wellFormed (h : p.Phrased ts) (hp : p.Expressible) :
    ∀ t ∈ ts, t.WellFormed := by
  have henclosed {q : Predicate} {us : List Token} (hus : ∀ t ∈ us, t.WellFormed) :
      ∀ t ∈ q.enclosed us, t.WellFormed := by
    cases q with
    | clause => exact hus
    | join => simpa [enclosed, or_imp, forall_and, Token.WellFormed] using hus
  induction h with
  | clause c =>
    simp only [List.forall_mem_cons, List.not_mem_nil, false_imp_iff, implies_true, and_true]
    exact ⟨⟨hp.1.ne_nil, hp.1.chars⟩, c.op.wellFormed, Literal.wellFormed hp.2⟩
  | join hop _ _ ihp ihq =>
    simp only [List.forall_mem_append, List.forall_mem_cons]
    exact ⟨henclosed (ihp hp.1), hop.wellFormed, henclosed (ihq hp.2)⟩

theorem Phrased.ne_nil (h : p.Phrased ts) : ts ≠ [] := by
  cases h <;> simp

/-- The text of a predicate is read back. -/
theorem parse_of_written (hp : p.Expressible) (h : p.Written text) :
    Condition.parse text = .ok p := by
  obtain ⟨-, tokens, hrenders, hphrased⟩ := h
  have hwell : ∀ a ∈ tokens, a.token.WellFormed := fun a ha =>
    hphrased.wellFormed hp _ (List.mem_map_of_mem ha)
  rw [Condition.parse, tokenize_of_renders hrenders hwell, Except.ok_bind, operand_eq_ok_iff]
  exact (hphrased.sentence hp).1

end Predicate

end Reading

section Ends

variable {t : Token} {tokens : List Token.At} {place : Nat} {cs text : List Char}

theorem Query.trimmed_of_class {p : Char → Bool} (hblank : ∀ c, Text.isBlank c = true → p c = false)
    (hsemicolon : p ';' = false) (hne : cs ≠ []) (h : ∀ c ∈ cs, p c = true) : Trimmed cs :=
  trimmed_of_forall hne fun c hc =>
    ⟨Lexer.not_isBlank hblank (h c hc), Lexer.ne_of_class (h c hc) hsemicolon⟩

theorem Token.Spelled.trimmed (h : t.Spelled cs) (hwell : t.WellFormed) : Query.Trimmed cs := by
  cases h with
  | leftParen =>
    exact Query.trimmed_of_forall nofun (List.forall_mem_singleton.mpr ⟨rfl, by decide⟩)
  | rightParen =>
    exact Query.trimmed_of_forall nofun (List.forall_mem_singleton.mpr ⟨rfl, by decide⟩)
  | word =>
    have hblank := fun c hc => (Lexer.classes_of_isBlank (c := c) hc).1
    exact Query.trimmed_of_class hblank rfl hwell.1 hwell.2
  | op =>
    have hblank := fun c hc => (Lexer.classes_of_isBlank (c := c) hc).2.1
    exact Query.trimmed_of_class hblank rfl hwell.1 hwell.2
  | @quoted quote hquote cs =>
    have hblank := fun c hc => (Lexer.classes_of_isBlank (c := c) hc).2.2
    have hquotes : ∀ c ∈ [quote], Lexer.isQuote c = true := List.forall_mem_singleton.mpr hquote
    have htrimmed := Query.trimmed_of_class hblank rfl (List.cons_ne_nil _ _) hquotes
    exact htrimmed.between _ htrimmed

/-- No text of tokens ends in a semicolon. -/
theorem Renders.last_ne (h : Renders place tokens text)
    (hwell : ∀ a ∈ tokens, a.token.WellFormed) : ∀ c ∈ text.getLast?, c ≠ ';' := by
  induction h with
  | nil hgap =>
    rintro c hc rfl
    exact absurd (hgap _ (List.mem_of_getLast? hc)) (by decide)
  | @cons _ gap cs rest _ _ _ ht _ _ ih =>
    obtain ⟨ht', hts⟩ := List.forall_mem_cons.mp hwell
    have htrimmed := ht.trimmed ht'
    have hne : cs ++ rest ≠ [] := List.append_ne_nil_of_left_ne_nil htrimmed.ne_nil rest
    intro c hc
    rw [List.getLast?_append_of_ne_nil _ hne] at hc
    cases rest with
    | nil =>
      rw [List.append_nil] at hc
      exact htrimmed.last_ne c hc
    | cons d ds =>
      rw [List.getLast?_append_of_ne_nil _ (List.cons_ne_nil d ds)] at hc
      exact ih hts c hc

theorem Renders.ne_nil (h : Renders place tokens text) (hwell : ∀ a ∈ tokens, a.token.WellFormed)
    (htokens : tokens ≠ []) : text ≠ [] := by
  cases h with
  | nil => exact absurd rfl htokens
  | cons hgap ht =>
    have htrimmed := ht.trimmed (hwell _ List.mem_cons_self)
    simp [htrimmed.ne_nil]

theorem Predicate.Written.trimmed {p : Predicate} (h : p.Written text) (hp : p.Expressible) :
    Query.Trimmed text := by
  obtain ⟨htight, tokens, hrenders, hphrased⟩ := h
  have hwell : ∀ a ∈ tokens, a.token.WellFormed := fun a ha =>
    hphrased.wellFormed hp _ (List.mem_map_of_mem ha)
  have htokens : tokens ≠ [] := by
    rintro rfl
    exact hphrased.ne_nil rfl
  exact ⟨htight, hrenders.ne_nil hwell htokens, hrenders.last_ne hwell⟩

end Ends

section Existence

variable {p : Predicate} {t : Token} {ts : List Token} {place : Nat} {gap : List Char}

theorem Token.exists_spelled (t : Token) : ∃ cs, t.Spelled cs := by
  cases t with
  | leftParen => exact ⟨_, .leftParen⟩
  | rightParen => exact ⟨_, .rightParen⟩
  | word cs => exact ⟨_, .word cs⟩
  | quoted cs =>
    have hquote : Lexer.isQuote '"' = true := rfl
    exact ⟨_, .quoted hquote cs⟩
  | op cs => exact ⟨_, .op cs⟩

/-- Tokens can be written with a space between each two. -/
theorem exists_renders (place : Nat) (hgap : Text.IsBlank gap)
    (hwell : ∀ u ∈ t :: ts, u.WellFormed) :
    ∃ tokens cs, tokens.map (·.token) = t :: ts ∧ Renders place tokens (gap ++ cs) ∧
      Query.Trimmed cs := by
  induction ts generalizing t place gap with
  | nil =>
    obtain ⟨cs, hcs⟩ := t.exists_spelled
    have hend : Renders (place + Text.byteSize gap + Text.byteSize cs) [] [] := .nil .nil
    have hsep : ∀ c ∈ cs.getLast?, ∀ d ∈ [].head?, fuses c d = false := fun _ _ => nofun
    have hrenders := Renders.cons hgap hcs hsep hend
    rw [List.append_nil] at hrenders
    exact ⟨_, cs, rfl, hrenders, hcs.trimmed (hwell t List.mem_cons_self)⟩
  | cons u us ih =>
    obtain ⟨cs, hcs⟩ := t.exists_spelled
    obtain ⟨ht, hts⟩ := List.forall_mem_cons.mp hwell
    obtain ⟨tokens, rest, hmap, hrenders, hrest⟩ :=
      ih (place + Text.byteSize gap + Text.byteSize cs) .space hts
    have hsep : ∀ c ∈ cs.getLast?, ∀ d ∈ ([' '] ++ rest).head?, fuses c d = false := by
      intro c _ d hd
      cases Option.mem_some.mp hd
      exact Lexer.fuses_blank rfl c
    refine ⟨_, _, ?_, .cons hgap hcs hsep hrenders, ?_⟩
    · rw [List.map_cons, hmap]
    · exact (hcs.trimmed ht).between _ hrest

theorem Predicate.exists_phrased (p : Predicate) : ∃ ts, p.Phrased ts := by
  induction p with
  | clause c => exact ⟨_, .clause c⟩
  | join op p q ihp ihq =>
    obtain ⟨ts, hts⟩ := ihp
    obtain ⟨us, hus⟩ := ihq
    have hop : Condition.IsKeyword op op.word.toList := rfl
    exact ⟨_, .join hop hts hus⟩

theorem Predicate.exists_written (hp : p.Expressible) : ∃ text, p.Written text := by
  obtain ⟨ts, hts⟩ := p.exists_phrased
  obtain ⟨t, us, rfl⟩ := List.exists_cons_of_ne_nil hts.ne_nil
  obtain ⟨tokens, text, hmap, hrenders, htrimmed⟩ := exists_renders 0 .nil (hts.wellFormed hp)
  exact ⟨text, htrimmed.toTight, tokens, hrenders, hmap ▸ hts⟩

end Existence

end EntityStore
