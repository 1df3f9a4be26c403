import EntityStore.Proofs.Except
import EntityStore.Proofs.Query.Grammar

/-! Reading conditions: what is read are the sentences of the grammar, each as its one tree. -/
namespace EntityStore.Condition

theorem fault_ne_ok {α : Type} (text : List Char) (tokens : List Token.At)
    (cause : String → SyntaxError) (v : α) : fault text tokens cause ≠ .ok v := by
  intro h
  obtain ⟨_, -, h⟩ := Except.bind_eq_ok_iff.mp h
  cases h

theorem clauseFault_ne_ok {α : Type} (text : List Char) (tokens : List Token.At) (v : α) :
    clauseFault text tokens ≠ .ok v := by
  unfold clauseFault
  split
  · exact fault_ne_ok _ _ _ v
  · split_ifs
    · exact fun h => nomatch h
    · exact fault_ne_ok _ _ _ v
    · split
      · exact fault_ne_ok _ _ _ v
      · split_ifs <;> exact fault_ne_ok _ _ _ v

/-! Every sentence is read: a term or a chain in front of other tokens is taken off as a whole. -/

theorem operand_leftParen (text : List Char) (outer : List Waiting) (left : Waiting)
    {a : Token.At} (rest : List Token.At) (ha : a.token = .leftParen) :
    operand text outer left (a :: rest) = operand text (left :: outer) none rest := by
  rw [operand.eq_def]
  simp only [if_pos ha]

/-- The tokens of a clause make up an operand. -/
theorem operand_clause (text : List Char) (outer : List Waiting) (left : Waiting)
    {a o l : Token.At} (rest : List Token.At) {cs : List Char} {op : Operator} {lit : Literal}
    (ha : a.token = .word cs) (hc : IsPlain cs) (ho : o.token = .op op.symbol.toList)
    (hl : IsLiteral l.token lit) :
    operand text outer left (a :: o :: l :: rest) =
      continued text outer (left.join (.clause ⟨String.ofList cs, op, lit⟩)) rest := by
  have hname : a.token.name? = some (String.ofList cs) :=
    Token.name?_eq_some_iff.mpr ⟨cs, ha, hc, rfl⟩
  have hop : o.token.operator? = some op := Token.operator?_eq_some_iff.mpr ho
  have hlit : l.token.literal? = some lit := Token.literal?_eq_some_iff.mpr hl
  have hparen : a.token ≠ .leftParen := by
    rw [ha]
    exact fun h => nomatch h
  rw [operand, if_neg hparen]
  simp only [hname, hop, hlit]

theorem continued_keyword (text : List Char) (outer : List Waiting) (p : Predicate)
    {a : Token.At} (rest : List Token.At) {cs : List Char} {op : Connective}
    (ha : a.token = .word cs) (hop : IsKeyword op cs) :
    continued text outer p (a :: rest) = operand text outer (some (p, op)) rest := by
  have hc : a.token.connective? = some op := Token.connective?_eq_some_iff.mpr ⟨cs, ha, hop⟩
  rw [continued.eq_def]
  simp only [hc]

theorem continued_rightParen (text : List Char) (left : Waiting) (outer : List Waiting)
    (p : Predicate) {a : Token.At} (rest : List Token.At) (ha : a.token = .rightParen) :
    continued text (left :: outer) p (a :: rest) = continued text outer (left.join p) rest := by
  have hc : a.token.connective? = none := by
    rw [ha]
    rfl
  rw [continued.eq_def]
  simp only [hc, if_pos ha]

mutual

theorem operand_of_term (text : List Char) {ts : List Token} {p : Predicate} :
    Term trees ts p → ∀ (outer : List Waiting) (left : Waiting) (tokens rest : List Token.At),
      tokens.map (·.token) = ts →
      operand text outer left (tokens ++ rest) = continued text outer (left.join p) rest
  | .parens h => by
    intro outer left tokens rest hts
    obtain ⟨a, tail, rfl, ha, htail⟩ := List.map_eq_cons_iff.mp hts
    obtain ⟨inner, last, rfl, hinner, hlast⟩ := List.map_eq_append_iff.mp htail
    obtain ⟨b, _, rfl, hb, hnil⟩ := List.map_eq_cons_iff.mp hlast
    cases List.map_eq_nil_iff.mp hnil
    rw [List.cons_append, operand_leftParen text outer left _ ha, List.append_assoc,
      operand_of_chain text h (left :: outer) inner _ hinner, List.singleton_append,
      continued_rightParen text left outer p rest hb]
  | .clause op hc hl => by
    intro outer left tokens rest hts
    obtain ⟨a, tail, rfl, ha, htail⟩ := List.map_eq_cons_iff.mp hts
    obtain ⟨o, tail, rfl, ho, htail⟩ := List.map_eq_cons_iff.mp htail
    obtain ⟨l, tail, rfl, hlit, hnil⟩ := List.map_eq_cons_iff.mp htail
    cases List.map_eq_nil_iff.mp hnil
    exact operand_clause text outer left rest ha hc ho (hlit ▸ hl)

theorem operand_of_chain (text : List Char) {ts : List Token} {p : Predicate} :
    Chain trees ts p → ∀ (outer : List Waiting) (tokens rest : List Token.At),
      tokens.map (·.token) = ts →
      operand text outer none (tokens ++ rest) = continued text outer p rest
  | .term h => by
    intro outer tokens rest hts
    exact operand_of_term text h outer none tokens rest hts
  | .link h hop hu => by
    intro outer tokens rest hts
    obtain ⟨before, after, rfl, hbefore, hafter⟩ := List.map_eq_append_iff.mp hts
    obtain ⟨a, us, rfl, ha, hus⟩ := List.map_eq_cons_iff.mp hafter
    rw [List.append_assoc, operand_of_chain text h outer before _ hbefore, List.cons_append,
      continued_keyword text outer _ _ ha hop, operand_of_term text hu outer _ us rest hus]
    rfl

end

/-- What is read after the operand `p`: the tokens close what waits outside, one parenthesis after
another, and in between join terms to the operand. The last predicate is the outcome. -/
inductive Ends : List Waiting → Predicate → List Token → Predicate → Prop
  | done (p : Predicate) : Ends [] p [] p
  | link {outer : List Waiting} {p q r : Predicate} {op : Connective} {cs : List Char}
      {us vs : List Token} (hop : IsKeyword op cs) (hu : Term trees us q)
      (h : Ends outer (.join op p q) vs r) : Ends outer p (.word cs :: (us ++ vs)) r
  | close {left : Waiting} {outer : List Waiting} {p r : Predicate} {vs : List Token}
      (h : Ends outer (left.join p) vs r) : Ends (left :: outer) p (.rightParen :: vs) r

/-- With nothing outside, the tokens extend the chain that the operand stands for. -/
theorem Ends.chain {p r : Predicate} {vs : List Token} (h : Ends [] p vs r) {ts : List Token}
    (hp : Chain trees ts p) : Chain trees (ts ++ vs) r := by
  generalize ho : ([] : List Waiting) = outer at h
  induction h generalizing ts with
  | done p => rwa [List.append_nil]
  | link hop hu _ ih =>
    have := ih (hp.link hop hu) ho
    rwa [List.append_assoc, List.cons_append] at this
  | close => cases ho

/-- Inside a parenthesis, the tokens extend the chain up to where it is closed. -/
theorem Ends.split {left : Waiting} {outer : List Waiting} {p r : Predicate} {vs : List Token}
    (h : Ends (left :: outer) p vs r) {ts : List Token} (hp : Chain trees ts p) :
    ∃ us q ws, vs = us ++ .rightParen :: ws ∧ Chain trees (ts ++ us) q ∧
      Ends outer (left.join q) ws r := by
  generalize ho : left :: outer = all at h
  -- The chain grows by each linked term, until the first token that closes.
  induction h generalizing ts with
  | done => cases ho
  | @link _ _ _ _ _ cs us vs hop hu _ ih =>
    obtain ⟨us', q, ws, rfl, hq, hend⟩ := ih (hp.link hop hu) ho
    refine ⟨.word cs :: (us ++ us'), q, ws, by simp, ?_, hend⟩
    rwa [List.append_assoc, List.cons_append] at hq
  | close h =>
    cases ho
    exact ⟨[], _, _, rfl, by rwa [List.append_nil], h⟩

mutual

/-- What is read as an operand starts with a term. -/
theorem exists_term_of_operand (text : List Char) (outer : List Waiting) (left : Waiting)
    (tokens : List Token.At) (r : Predicate) (h : operand text outer left tokens = .ok r) :
    ∃ us q vs, tokens.map (·.token) = us ++ vs ∧ Term trees us q ∧
      Ends outer (left.join q) vs r := by
  match tokens, h with
  | [], h => exact (clauseFault_ne_ok _ _ _ h).elim
  | a :: rest, h =>
    by_cases ha : a.token = .leftParen
    · rw [operand_leftParen text outer left rest ha] at h
      obtain ⟨us, q, vs, htokens, hus, hends⟩ :=
        exists_term_of_operand text (left :: outer) none rest r h
      -- The tokens up to the closing parenthesis belong to this term, the others stand outside.
      obtain ⟨us', q', ws, rfl, hq', hend⟩ := hends.split (.term hus)
      exact ⟨_, q', ws, by simp [ha, htokens], .parens hq', hend⟩
    · rw [operand.eq_def] at h
      simp only [if_neg ha] at h
      split at h
      next o l rest' =>
        split at h
        next name op lit hname hop hlit =>
          obtain ⟨cs, hcs, hplain, rfl⟩ := Token.name?_eq_some_iff.mp hname
          have hterm := Term.clause (r := trees) op hplain (Token.literal?_eq_some_iff.mp hlit)
          have hends := ends_of_continued text outer _ rest' r h
          refine ⟨_, _, _, ?_, hterm, hends⟩
          simp [hcs, Token.operator?_eq_some_iff.mp hop]
        next => exact (clauseFault_ne_ok _ _ _ h).elim
      next => exact (clauseFault_ne_ok _ _ _ h).elim
termination_by tokens.length

/-- What is read after an operand joins terms to it and closes what is open. -/
theorem ends_of_continued (text : List Char) (outer : List Waiting) (p : Predicate)
    (tokens : List Token.At) (r : Predicate) (h : continued text outer p tokens = .ok r) :
    Ends outer p (tokens.map (·.token)) r := by
  match tokens, h with
  | [], h =>
    cases outer with
    | nil =>
      cases h
      exact .done p
    | cons => cases h
  | a :: rest, h =>
    cases hc : a.token.connective? with
    | some op =>
      obtain ⟨cs, hcs, hop⟩ := Token.connective?_eq_some_iff.mp hc
      rw [continued_keyword text outer p rest hcs hop] at h
      obtain ⟨us, q, vs, htokens, hus, hends⟩ := exists_term_of_operand text outer _ rest r h
      rw [List.map_cons, hcs, htokens]
      exact .link hop hus hends
    | none =>
      rw [continued.eq_def] at h
      simp only [hc] at h
      cases outer with
      | nil =>
        simp only at h
        split_ifs at h
        · cases h
        · exact (fault_ne_ok _ _ _ _ h).elim
      | cons left outer =>
        simp only at h
        split_ifs at h with ha
        · rw [List.map_cons, ha]
          exact .close (ends_of_continued text outer _ rest r h)
        · cases h
termination_by tokens.length

end

/-- Tokens are read as a tree exactly when they are a sentence with this tree. -/
theorem operand_eq_ok_iff (text : List Char) {tokens : List Token.At} {p : Predicate} :
    operand text [] none tokens = .ok p ↔ Chain trees (tokens.map (·.token)) p := by
  constructor
  · intro h
    obtain ⟨us, q, vs, htokens, hus, hends⟩ := exists_term_of_operand text [] none tokens p h
    rw [htokens]
    exact hends.chain (.term hus)
  · intro h
    have := operand_of_chain text h [] tokens [] rfl
    rwa [List.append_nil] at this

/-- A sentence has one tree, because reading its tokens has one outcome. -/
theorem Chain.tree_unique {ts : List Token} {p q : Predicate} (hp : Chain trees ts p)
    (hq : Chain trees ts q) : p = q := by
  -- Where the tokens start does not matter.
  have hts : (ts.map fun t => (⟨t, 0⟩ : Token.At)).map (·.token) = ts := by
    rw [List.map_map]
    exact List.map_id ts
  rw [← hts] at hp hq
  have := (operand_eq_ok_iff []).mpr hp
  rw [(operand_eq_ok_iff []).mpr hq] at this
  exact (Except.ok.inj this).symm

/-- A sentence has one value in each reading, that of its tree. -/
theorem Chain.value_iff {α : Type} (r : Reading α) {ts : List Token} {p : Predicate}
    (hp : Chain trees ts p) {v : α} : Chain r ts v ↔ v = r.value p := by
  constructor
  · intro h
    obtain ⟨q, hq, rfl⟩ := h.exists_tree
    rw [hp.tree_unique hq]
  · rintro rfl
    exact hp.value r

end EntityStore.Condition

namespace EntityStore

theorem Predicate.parse_eq_ok_iff_exists_tokens (text : String) (p : Predicate) :
    Predicate.parse text = .ok p ↔ ∃ tokens, tokenize text.toList = .ok tokens ∧
      Condition.Chain Condition.trees (tokens.map (·.token)) p := by
  unfold Predicate.parse Condition.parse
  simp only [Except.bind_eq_ok_iff, Condition.operand_eq_ok_iff]

/-- A text is read as a condition exactly when its tokens are a sentence of the grammar. The
condition is the one tree of the sentence, and its truth for an entity is that of the clauses joined
from left to right. -/
theorem Predicate.parse_eq_ok_iff_sentence (text : String) :
    (∀ p, Predicate.parse text = .ok p ↔ ∃ tokens, tokenize text.toList = .ok tokens ∧
      Condition.Chain Condition.trees (tokens.map (·.token)) p) ∧
    (∀ tokens, tokenize text.toList = .ok tokens → ∀ p,
      Condition.Chain Condition.trees (tokens.map (·.token)) p →
      (∀ q, Condition.Chain Condition.trees (tokens.map (·.token)) q ↔ q = p) ∧
      ∀ e b, Condition.Chain (Condition.truth e) (tokens.map (·.token)) b ↔ b = p.holds e) := by
  refine ⟨Predicate.parse_eq_ok_iff_exists_tokens text, fun tokens _ p hp => ⟨fun q => ?_, ?_⟩⟩
  · exact ⟨fun hq => hq.tree_unique hp, fun h => h ▸ hp⟩
  · intro e b
    rw [hp.value_iff, Condition.value_truth]

end EntityStore
