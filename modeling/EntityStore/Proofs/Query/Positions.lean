import EntityStore.Proofs.Query.KeywordPositions

/-! Queries and conditions read by position: keywords by the byte, tokens by their number, every
slice and every access checked. No check fails, and what is read is what the parser reads. -/
namespace EntityStore.Position

section Conditions

/-- A place in the list of tokens that has been reached, no earlier than another one. -/
structure Reached (start : ℕ) where
  predicate : Predicate
  next : ℕ
  le : start ≤ next

variable (text : List Char) (tokens : List Token.At)

def peek (place : ℕ) : Option Token := tokens[place]?.map (·.token)

variable {tokens} in
theorem lt_of_peek {place : ℕ} {t : Token} (h : peek tokens place = some t) :
    place < tokens.length := by
  obtain ⟨a, ha, -⟩ := Option.map_eq_some_iff.mp h
  exact (List.getElem?_eq_some_iff.mp ha).1

/-- The trimmed text of the clause at a token, or all of the text if there is no token. -/
def fragment (place : ℕ) : Except Stop String :=
  match tokens[place]? with
  | none => .ok (String.ofList (Text.trim text))
  | some first => do
    let rest ← slice tokens (place + 1) tokens.length
    let piece ← sliceText text first.start (Condition.clauseEnd text rest)
    return String.ofList (Text.trim piece)

def fault {α : Type} (place : ℕ) (cause : String → SyntaxError) : Except Stop α := do
  let piece ← fragment text tokens place
  throw (.refused (cause piece))

def unbalanced {α : Type} : Except Stop α :=
  .error (.refused (.unbalancedParens (String.ofList (Text.trim text))))

/-- Reads an attribute, an operator and a literal. -/
def clause (place : ℕ) : Except Stop Clause :=
  if peek tokens place = some .rightParen then unbalanced text
  else match (peek tokens place).bind Token.name? with
    | none => fault text tokens place .expectedAttribute
    | some subject => match (peek tokens (place + 1)).bind Token.operator? with
      | none => fault text tokens place .unknownOperator
      | some op => match (peek tokens (place + 2)).bind Token.literal? with
        | none => fault text tokens place .expectedLiteral
        | some literal => .ok ⟨subject, op, literal⟩

mutual

/-- Reads a chain in parentheses, or a clause. -/
def term (place : ℕ) : Except Stop (Reached (place + 1)) :=
  if h : peek tokens place = some .leftParen then do
    let inner ← chain (place + 1)
    if peek tokens inner.next = some .rightParen then
      return ⟨inner.predicate, inner.next + 1, by have := inner.le; omega⟩
    else unbalanced text
  else do
    let c ← clause text tokens place
    return ⟨.clause c, place + 3, by omega⟩
termination_by 2 * (tokens.length - place)
decreasing_by
  have := lt_of_peek h
  omega

/-- Reads terms with connectives between them. -/
def chain (place : ℕ) : Except Stop (Reached (place + 1)) := do
  let first ← term place
  let whole ← more first.predicate first.next
  return ⟨whole.predicate, whole.next, first.le.trans whole.le⟩
termination_by 2 * (tokens.length - place) + 1
decreasing_by
  · omega
  · have := first.le
    omega

/-- Reads on from a term while connectives follow. -/
def more (left : Predicate) (place : ℕ) : Except Stop (Reached place) :=
  match h : (peek tokens place).bind Token.connective? with
  | none => return ⟨left, place, le_rfl⟩
  | some op => do
    let right ← term (place + 1)
    let whole ← more (.join op left right.predicate) right.next
    return ⟨whole.predicate, whole.next, by have := right.le; have := whole.le; omega⟩
termination_by 2 * (tokens.length - place)
decreasing_by
  all_goals
    obtain ⟨t, ht, -⟩ := Option.bind_eq_some_iff.mp h
    have := lt_of_peek ht
  · omega
  · have := right.le
    omega

end


/-- Reads a condition; its tokens must all be read. -/
def condition (text : List Char) : Except Stop Predicate := do
  let tokens ← (tokenize text).mapError Stop.of
  let whole ← chain text tokens 0
  match peek tokens whole.next with
  | none => return whole.predicate
  | some .rightParen => unbalanced text
  | some _ => fault text tokens whole.next .unexpectedToken

end Conditions

section Queries

/-- Reads the condition after `WHERE`. -/
def statedCondition (query text : List Char) : Except Stop Predicate :=
  if text.isEmpty then .error (.refused (.expectedAttribute (String.ofList query)))
  else condition text

def parse (text : String) : Except Stop Query := do
  let query := Query.body text.toList
  match ← stripKeyword query "SELECT".toList with
  | none => throw (.refused (.missingSelect (String.ofList query)))
  | some rest =>
    match ← parts rest "FROM".toList with
    | none => throw (.refused (.missingFrom (String.ofList query)))
    | some (selectText, rest) =>
      let clauses ← parts rest "WHERE".toList
      let sourceText := (clauses.map (·.1)).getD rest
      let select ← (Query.names .select query selectText).mapError .refused
      let source ← (Query.names .source query sourceText).mapError .refused
      let condition ← match clauses with
        | some (_, text) => (statedCondition query text).map some
        | none => pure none
      return {
        select := if select = ["*"] then .all else .names select
        source := if source = ["*"] then .all else .names source
        condition }

end Queries

section Agreement

variable {text : List Char} {tokens : List Token.At} {place : ℕ}

theorem mapError_of_uncut {α : Type} {x : Except SyntaxError α} (h : Uncut x) :
    x.mapError Stop.of = x.mapError .refused := by
  cases x with
  | ok a => rfl
  | error e =>
    cases e with
    | badCut i j => exact (h i j rfl).elim
    | _ => rfl

theorem peek_add (tokens : List Token.At) (place i : ℕ) :
    peek tokens (place + i) = (tokens.drop place)[i]?.map (·.token) := by
  rw [peek, List.getElem?_drop]

theorem peek_eq (tokens : List Token.At) (place : ℕ) :
    peek tokens place = (tokens.drop place).head?.map (·.token) := by
  rw [← Nat.add_zero place, peek_add, ← List.head?_eq_getElem?]
  rfl

theorem fragment_eq (h : Token.Within text tokens) (place : ℕ) :
    fragment text tokens place =
      (Condition.fragment text (tokens.drop place)).mapError .refused := by
  unfold fragment
  cases hplace : tokens[place]? with
  | none =>
    rw [List.drop_eq_nil_of_le (List.getElem?_eq_none_iff.mp hplace)]
    rfl
  | some first =>
    obtain ⟨hlt, rfl⟩ := List.getElem?_eq_some_iff.mp hplace
    have hdrop := List.drop_eq_getElem_cons hlt
    have hwithin := h.drop place
    rw [hdrop] at hwithin ⊢
    obtain ⟨piece, hpiece⟩ := hwithin.exists_slice
    dsimp only
    rw [slice_rest hlt, Except.ok_bind, sliceText_eq_ok hpiece, Condition.fragment_cons, cut,
      hpiece]
    rfl

theorem fault_eq {α : Type} (h : Token.Within text tokens) (place : ℕ)
    (cause : String → SyntaxError) :
    (fault text tokens place cause : Except Stop α) =
      (Condition.fault text (tokens.drop place) cause).mapError .refused := by
  unfold fault Condition.fault
  rw [fragment_eq h]
  cases Condition.fragment text (tokens.drop place) <;> rfl

theorem fault_bind {α β : Type} (ts : List Token.At) (cause : String → SyntaxError)
    (f : α → Except Stop β) :
    ((Condition.fault text ts cause : Except SyntaxError α).mapError .refused >>= f) =
      (Condition.fault text ts cause : Except SyntaxError β).mapError .refused := by
  unfold Condition.fault
  cases Condition.fragment text ts <;> rfl

/-- Tokens that start with no clause are at fault in the same place. -/
theorem operand_of_fault (outer : List Condition.Waiting) (left : Condition.Waiting)
    {a : Token.At} {rest : List Token.At} (ha : a.token ≠ .leftParen)
    (h : a.token.name? = none ∨ (rest[0]?.map (·.token)).bind Token.operator? = none ∨
      (rest[1]?.map (·.token)).bind Token.literal? = none) :
    Condition.operand text outer left (a :: rest) = Condition.clauseFault text (a :: rest) := by
  rw [Condition.operand.eq_def]
  simp only [if_neg ha]
  split
  next o l rest' =>
    split
    next hname hop hlit =>
      obtain h | h | h := h
      · cases hname.symm.trans h
      · cases hop.symm.trans h
      · cases hlit.symm.trans h
    next => rfl
  next => rfl

/-- The clause at a token is read as the clause that the tokens from there on start with. -/
theorem clause_eq (h : Token.Within text tokens) (outer : List Condition.Waiting)
    (left : Condition.Waiting) (hparen : peek tokens place ≠ some .leftParen) :
    (Condition.operand text outer left (tokens.drop place)).mapError .refused =
      (clause text tokens place >>= fun c =>
        (Condition.continued text outer (left.join (.clause c))
          (tokens.drop (place + 3))).mapError .refused) := by
  unfold clause
  simp only [fault_eq h]
  rw [peek_add, peek_add, ← List.drop_drop]
  rw [peek_eq] at hparen ⊢
  generalize tokens.drop place = ts at hparen ⊢
  cases ts with
  | nil => rfl
  | cons a rest =>
    have ha : a.token ≠ .leftParen := fun ha => hparen (congrArg some ha)
    rw [List.head?_cons, Option.map_some, Option.bind_some, List.getElem?_cons_succ,
      List.getElem?_cons_succ]
    cases hname : a.token.name? with
    | none =>
      rw [operand_of_fault outer left ha (.inl hname)]
      by_cases hright : a.token = .rightParen
      · rw [if_pos (congrArg some hright), Condition.clauseFault_rightParen hright]
        rfl
      · rw [if_neg fun h => hright (Option.some.inj h),
          Condition.clauseFault_of_name?_eq_none hright hname, fault_bind]
    | some subject =>
      have hright : a.token ≠ .rightParen := fun h => by
        rw [h] at hname
        cases hname
      rw [if_neg fun h => hright (Option.some.inj h)]
      dsimp only
      cases hop : (rest[0]?.map (·.token)).bind Token.operator? with
      | none =>
        rw [operand_of_fault outer left ha (.inr (.inl hop)),
          Condition.clauseFault_of_name? hname, hop]
        exact (fault_bind _ _ _).symm
      | some op =>
        dsimp only
        cases hlit : (rest[1]?.map (·.token)).bind Token.literal? with
        | none =>
          rw [operand_of_fault outer left ha (.inr (.inr hlit)),
            Condition.clauseFault_of_name? hname, hop]
          exact (fault_bind _ _ _).symm
        | some literal =>
          match rest, hop, hlit with
          | o :: l :: rest, hop, hlit =>
            have hop : o.token.operator? = some op := hop
            have hlit : l.token.literal? = some literal := hlit
            rw [Condition.operand.eq_def]
            simp only [if_neg ha, hname, hop, hlit]
            rfl

theorem lt_of_connective {op : Connective}
    (h : (peek tokens place).bind Token.connective? = some op) : place < tokens.length := by
  obtain ⟨t, ht, -⟩ := Option.bind_eq_some_iff.mp h
  exact lt_of_peek ht

/-- Reading on ends where no connective stands. -/
theorem connective?_of_more {place : ℕ} {left : Predicate} {whole : Reached place}
    (h : more text tokens left place = .ok whole) :
    (peek tokens whole.next).bind Token.connective? = none := by
  unfold more at h
  split at h
  next hnone =>
    cases h
    exact hnone
  next op hop =>
    obtain ⟨right, -, h⟩ := Except.bind_eq_ok_iff.mp h
    obtain ⟨rest, hrest, h⟩ := Except.bind_eq_ok_iff.mp h
    cases h
    have hlt := lt_of_connective hop
    have hle := right.le
    have hnone := connective?_of_more hrest
    exact hnone
termination_by tokens.length - place

theorem connective?_of_chain {whole : Reached (place + 1)}
    (h : chain text tokens place = .ok whole) :
    (peek tokens whole.next).bind Token.connective? = none := by
  unfold chain at h
  obtain ⟨first, -, h⟩ := Except.bind_eq_ok_iff.mp h
  obtain ⟨rest, hrest, h⟩ := Except.bind_eq_ok_iff.mp h
  cases h
  have hnone := connective?_of_more hrest
  exact hnone

/-- After a chain in parentheses, only a closing one is read on. -/
theorem continued_closed (text : List Char) (outer : List Condition.Waiting)
    (left : Condition.Waiting) (p : Predicate)
    (hnone : (peek tokens place).bind Token.connective? = none) :
    Condition.continued text (left :: outer) p (tokens.drop place) =
      if peek tokens place = some .rightParen then
        Condition.continued text outer (left.join p) (tokens.drop (place + 1))
      else Condition.unbalanced text := by
  rw [← List.drop_drop]
  rw [peek_eq] at hnone ⊢
  generalize tokens.drop place = ts at hnone ⊢
  cases ts with
  | nil => rfl
  | cons a rest =>
    have hnone : a.token.connective? = none := hnone
    rw [Condition.continued.eq_def]
    simp only [hnone, List.head?_cons, Option.map_some, Option.some.injEq, List.drop_one,
      List.tail_cons]

mutual

theorem term_eq (h : Token.Within text tokens) (outer : List Condition.Waiting)
    (left : Condition.Waiting) (place : ℕ) :
    (Condition.operand text outer left (tokens.drop place)).mapError .refused =
      (term text tokens place >>= fun t =>
        (Condition.continued text outer (left.join t.predicate) (tokens.drop t.next)).mapError
          .refused) := by
  unfold term
  by_cases hparen : peek tokens place = some .leftParen
  · have hlt := lt_of_peek hparen
    have hat : tokens[place].token = .leftParen := by
      rw [peek, List.getElem?_eq_getElem hlt] at hparen
      exact Option.some.inj hparen
    rw [dif_pos hparen, List.drop_eq_getElem_cons hlt,
      Condition.operand_leftParen text outer left _ hat, chain_eq h (left :: outer) (place + 1),
      bind_assoc]
    cases hchain : chain text tokens (place + 1) with
    | error e => rfl
    | ok inner =>
      rw [Except.ok_bind, Except.ok_bind,
        continued_closed text outer left inner.predicate (connective?_of_chain hchain)]
      split_ifs <;> rfl
  · rw [dif_neg hparen, clause_eq h outer left hparen]
    cases clause text tokens place <;> rfl
termination_by 2 * (tokens.length - place)

theorem chain_eq (h : Token.Within text tokens) (outer : List Condition.Waiting) (place : ℕ) :
    (Condition.operand text outer none (tokens.drop place)).mapError .refused =
      (chain text tokens place >>= fun c =>
        (Condition.continued text outer c.predicate (tokens.drop c.next)).mapError
          .refused) := by
  unfold chain
  rw [term_eq h outer none place, bind_assoc]
  cases term text tokens place with
  | error e => rfl
  | ok first =>
    have hle := first.le
    rw [Except.ok_bind, Except.ok_bind, bind_assoc]
    exact more_eq h outer first.predicate first.next
termination_by 2 * (tokens.length - place) + 1

theorem more_eq (h : Token.Within text tokens) (outer : List Condition.Waiting) (p : Predicate)
    (place : ℕ) :
    (Condition.continued text outer p (tokens.drop place)).mapError .refused =
      (more text tokens p place >>= fun w =>
        (Condition.continued text outer w.predicate (tokens.drop w.next)).mapError
          .refused) := by
  unfold more
  split
  next => rfl
  next op hop =>
    have hlt := lt_of_connective hop
    have hat : tokens[place].token.connective? = some op := by
      rw [peek, List.getElem?_eq_getElem hlt] at hop
      exact hop
    obtain ⟨cs, hcs, hkeyword⟩ := Token.connective?_eq_some_iff.mp hat
    rw [List.drop_eq_getElem_cons hlt, Condition.continued_keyword text outer p _ hcs hkeyword,
      term_eq h outer (some (p, op)) (place + 1), bind_assoc]
    cases term text tokens (place + 1) with
    | error e => rfl
    | ok right =>
      have hle := right.le
      rw [Except.ok_bind, Except.ok_bind, bind_assoc]
      exact more_eq h outer (.join op p right.predicate) right.next
termination_by 2 * (tokens.length - place)

end

/-- What stands behind the last chain is at fault. -/
theorem continued_rest (h : Token.Within text tokens) (p : Predicate)
    (hnone : (peek tokens place).bind Token.connective? = none) :
    (Condition.continued text [] p (tokens.drop place)).mapError .refused =
      match peek tokens place with
      | none => .ok p
      | some .rightParen => unbalanced text
      | some _ => fault text tokens place .unexpectedToken := by
  rw [fault_eq h]
  rw [peek_eq] at hnone ⊢
  generalize tokens.drop place = ts at hnone ⊢
  cases ts with
  | nil => rfl
  | cons a rest =>
    have hnone : a.token.connective? = none := hnone
    rw [Condition.continued.eq_def]
    simp only [hnone, List.head?_cons, Option.map_some]
    cases a.token <;> rfl

/-- A condition is read by position as it is read by its tokens. -/
theorem condition_eq (text : List Char) :
    condition text = (Condition.parse text).mapError .refused := by
  unfold condition Condition.parse
  rw [mapError_of_uncut (uncut_tokenize text)]
  obtain ⟨tokens, htokens, htext⟩ | ⟨e, he, -⟩ := tokenize_cases text
  · rw [htokens, Except.mapError_ok, Except.ok_bind, Except.ok_bind]
    have hchain := chain_eq htext.within [] 0
    rw [List.drop_zero] at hchain
    rw [hchain]
    cases hwhole : chain text tokens 0 with
    | error e => rfl
    | ok whole =>
      rw [Except.ok_bind, Except.ok_bind,
        continued_rest htext.within whole.predicate (connective?_of_chain hwhole)]
      rfl
  · rw [he]
    rfl

theorem isAsciiText_keyword : ∀ keyword ∈ Query.listEnds, IsAsciiText keyword := by
  simp only [isAsciiText_iff]
  decide

theorem statedCondition_eq (query text : List Char) :
    statedCondition query text = (Query.statedCondition query text).mapError .refused := by
  unfold statedCondition Query.statedCondition
  split_ifs
  · rfl
  · exact condition_eq text

/-- A query is read by position as it is read by its characters. -/
theorem parse_eq (text : String) : parse text = (Query.parse text).mapError .refused := by
  have hparts {keyword : List Char} (hmem : keyword ∈ Query.listEnds) (text : List Char) :=
    parts_eq (isAsciiText_keyword keyword hmem) text
  unfold parse Query.parse
  dsimp only
  rw [stripKeyword_select, Except.ok_bind]
  obtain hselect | ⟨kw, c, rest, -, -, -, hselect⟩ :=
    Query.afterSelect_cases (Query.body text.toList)
  · rw [hselect]
    rfl
  · rw [hselect, Except.ok_bind, Except.mapError_bind, ← hparts (by decide)]
    refine bind_congr fun clauses => ?_
    cases clauses with
    | none => rfl
    | some pieces =>
      dsimp only
      rw [Except.mapError_bind, ← hparts (by decide)]
      refine bind_congr fun clauses => ?_
      rw [Except.mapError_bind]
      refine bind_congr fun select => ?_
      rw [Except.mapError_bind]
      refine bind_congr fun source => ?_
      cases clauses with
      | none => rfl
      | some pieces =>
        dsimp only
        rw [statedCondition_eq, Except.mapError_bind]
        cases Query.statedCondition (Query.body text.toList) pieces.2 <;> rfl

/-- Queries and conditions are read without a place out of range: with every slice and every access
checked, reading by position has the outcomes of reading by characters, none of them a panic. The
checks that pass are those of places in order and inside, for texts also between characters. -/
theorem reads_in_range :
    (∀ text : String, parse text = (Query.parse text).mapError .refused) ∧
    (∀ text : String, condition text.toList = (Predicate.parse text).mapError .refused) ∧
    (∀ (text : String) i j, parse text ≠ .error (.panic i j)) ∧
    (∀ (text : String) i j, condition text.toList ≠ .error (.panic i j)) ∧
    (∀ text : String, Uncut (Query.parse text) ∧ Uncut (Predicate.parse text)) ∧
    (∀ text : String, (Text.bytes text.toList).toByteArray = text.toByteArray) ∧
    (∀ text i j, (∃ piece, sliceText text i j = .ok piece) ↔ i ≤ j ∧ j ≤ Text.byteSize text ∧
      Text.IsBoundary text i ∧ Text.IsBoundary text j) ∧
    (∀ (α : Type) (xs : List α) i j, (∃ ys, slice xs i j = .ok ys) ↔ i ≤ j ∧ j ≤ xs.length) ∧
    (∀ (α : Type) (xs : List α) i, (∃ x, element xs i = .ok x) ↔ i < xs.length) := by
  have hnone {α : Type} (x : Except SyntaxError α) (i j : ℕ) :
      x.mapError Stop.refused ≠ .error (.panic i j) := by
    cases x with
    | ok a => exact nofun
    | error e => exact nofun
  refine ⟨parse_eq, fun text => condition_eq text.toList, fun text i j => ?_, fun text i j => ?_,
    fun text => ⟨Query.uncut_parse text, Condition.uncut_parse text.toList⟩,
    fun text => ?_, fun _ _ _ => exists_sliceText_iff, fun _ _ _ _ => exists_slice_iff,
    fun _ _ _ => exists_element_iff⟩
  · rw [parse_eq]
    exact hnone _ i j
  · rw [condition_eq]
    exact hnone _ i j
  · rw [← Text.toByteArray_ofList, String.ofList_toList]

end Agreement

end EntityStore.Position
