import EntityStore.Proofs.Query.Phrase
import EntityStore.Proofs.Query.Positions

/-! What the errors of the readers point at: a piece of the text, and the piece of the faulty clause
where there is one. -/
namespace EntityStore

variable {text front rest gap : List Char} {place : ℕ} {tokens before : List Token.At}
  {first : Token.At} {e : SyntaxError} {s : String}

section Split

theorem Text.eq_nil_of_byteSize (h : Text.byteSize gap = 0) : gap = [] := by
  cases gap with
  | nil => rfl
  | cons c gap =>
    have hpos := c.utf8Size_pos
    rw [Text.byteSize] at h
    omega

/-- A text of tokens comes apart between any two of them, right before the second one. -/
theorem Renders.exists_split {xs ys : List Token.At} (h : Renders place (xs ++ ys) text) :
    ∃ front back, text = front ++ back ∧ Renders place xs front ∧
      Renders (place + Text.byteSize front) ys back ∧
      (∀ y ∈ ys.head?, y.start = place + Text.byteSize front) ∧ (ys = [] → back = []) := by
  induction xs generalizing place text with
  | nil =>
    cases h with
    | nil hgap =>
      exact ⟨text, [], (List.append_nil text).symm, .nil hgap, .nil .nil, nofun, fun _ => rfl⟩
    | @cons _ gap cs rest t ts hgap ht hsep hrest =>
      refine ⟨gap, cs ++ rest, rfl, .nil hgap, .cons .nil ht hsep hrest, ?_, nofun⟩
      exact fun y hy => Option.mem_some.mp hy ▸ rfl
  | cons x xs ih =>
    cases h with
    | @cons _ gap cs rest t ts hgap ht hsep hrest =>
      obtain ⟨front, back, rfl, hfront, hback, hstart, hend⟩ := ih hrest
      have hplace : place + Text.byteSize gap + Text.byteSize cs + Text.byteSize front =
          place + Text.byteSize (gap ++ (cs ++ front)) := by
        simp only [Text.byteSize_append, Nat.add_assoc]
      rw [hplace] at hback hstart
      refine ⟨gap ++ (cs ++ front), back, by simp, .cons hgap ht (fun c hc d hd => ?_) hfront,
        hback, hstart, hend⟩
      exact hsep c hc d (by rw [List.head?_append, Option.mem_def.mp hd]; rfl)

/-- A text that starts with a token starts with no white space. -/
theorem Renders.head? (h : Renders first.start (first :: tokens) text)
    (hwell : first.token.WellFormed) : ∀ c ∈ text.head?, Text.isBlank c = false := by
  generalize hplace : first.start = start at h
  cases h with
  | @cons _ gap cs rest t ts hgap ht hsep hrest =>
    have hnil : gap = [] := Text.eq_nil_of_byteSize (Nat.left_eq_add.mp hplace.symm)
    have htrimmed := ht.trimmed hwell
    intro c hc
    rw [hnil, List.nil_append, List.head?_append_of_ne_nil _ htrimmed.ne_nil] at hc
    exact htrimmed.head c hc

end Split

section Extent

/-- A piece of a text with some of its tokens. It starts with the first of them, behind the tokens
`before`, and ends, white space aside, where the tokens `after` start or the text ends. Behind its
first token there is no connective in it, and the first of `after` is one. -/
inductive Extent (text : List Char) (before : List Token.At) (first : Token.At)
    (inside after : List Token.At) (piece : List Char) : Prop
  | intro {front gap back : List Char} (htext : text = front ++ (piece ++ (gap ++ back)))
      (hgap : Text.IsBlank gap) (htight : Text.Tight piece) (hfront : Renders 0 before front)
      (hpiece : Renders first.start (first :: inside) (piece ++ gap))
      (hback : Renders (first.start + Text.byteSize (piece ++ gap)) after back)
      (hstart : first.start = Text.byteSize front)
      (hinside : ∀ t ∈ inside, t.token.connective? = none)
      (hafter : ∀ t ∈ after.head?, t.token.connective? ≠ none ∧
        t.start = first.start + Text.byteSize (piece ++ gap))
      (hend : after = [] → back = [])

theorem Extent.isInfix {inside after : List Token.At} {piece : List Char}
    (h : Extent text before first inside after piece) : piece <:+: text := by
  obtain ⟨rfl⟩ := h
  exact ⟨_, _, List.append_assoc _ _ _⟩

/-- The tokens up to the next connective. -/
theorem exists_inside (tokens : List Token.At) : ∃ inside after, tokens = inside ++ after ∧
    (∀ t ∈ inside, t.token.connective? = none) ∧
    (∀ t ∈ after.head?, t.token.connective? ≠ none) ∧
    tokens.find? (fun t => t.token.connective?.isSome) = after.head? := by
  induction tokens with
  | nil => exact ⟨[], [], rfl, nofun, nofun, rfl⟩
  | cons t ts ih =>
    by_cases ht : t.token.connective? = none
    · obtain ⟨inside, after, rfl, hinside, hafter, hfind⟩ := ih
      refine ⟨t :: inside, after, rfl, List.forall_mem_cons.mpr ⟨ht, hinside⟩, hafter, ?_⟩
      rw [List.find?_cons_of_neg (by simp [ht]), hfind]
    · refine ⟨[], t :: ts, rfl, nofun, fun u hu => Option.mem_some.mp hu ▸ ht, ?_⟩
      exact List.find?_cons_of_pos (Option.isSome_iff_ne_none.mpr ht)

namespace Condition

/-- A fragment is the piece from its first token to the next connective or the end. -/
theorem exists_extent (htext : TokenText (before ++ first :: tokens) text)
    (h : fragment text (first :: tokens) = .ok s) :
    ∃ inside after, tokens = inside ++ after ∧ Extent text before first inside after s.toList := by
  obtain ⟨inside, after, rfl, hinside, hafter, hfind⟩ := exists_inside tokens
  refine ⟨inside, after, rfl, ?_⟩
  obtain ⟨front, more, rfl, hfront, hmore, hfirst, -⟩ := htext.renders.exists_split
  have hstart : first.start = Text.byteSize front := by
    rw [hfirst first rfl, Nat.zero_add]
  rw [Nat.zero_add, ← hstart, ← List.cons_append] at hmore
  obtain ⟨mid, back, rfl, hmid, hback, hnext, hend⟩ := hmore.exists_split
  have hstop : clauseEnd (front ++ (mid ++ back)) (inside ++ after) =
      Text.byteSize front + Text.byteSize mid := by
    unfold clauseEnd
    rw [hfind]
    cases after with
    | nil =>
      rw [hend rfl, List.append_nil]
      exact Text.byteSize_append front mid
    | cons t after => exact (hnext t rfl).trans (by rw [hstart])
  have hcut : cut (front ++ (mid ++ back)) first.start
      (clauseEnd (front ++ (mid ++ back)) (inside ++ after)) = .ok mid := by
    rw [hstop, hstart]
    exact Query.cut_append front mid back
  rw [fragment_cons, hcut, Except.ok_bind] at h
  cases h
  -- The piece starts with its first token, so that white space is trimmed behind it only.
  have hwell : first.token.WellFormed := htext.wellFormed first (by simp)
  have htrim : Text.trim mid = Text.trimEnd mid := by
    rw [Text.trim, Text.trimStart, Text.dropWhile_of_head? (hmid.head? hwell)]
  obtain ⟨gap, hgap, hparts⟩ := Text.exists_trimEnd mid
  have hwhole : front ++ (mid ++ back) = front ++ (Text.trimEnd mid ++ (gap ++ back)) := by
    rw [← List.append_assoc (Text.trimEnd mid), ← hparts]
  rw [String.toList_ofList, htrim]
  refine .intro hwhole hgap (Text.tight_trimEnd (hmid.head? hwell)) hfront ?_ ?_ hstart hinside ?_
    hend
  all_goals rw [← hparts]
  · exact hmid
  · exact hback
  · exact fun t ht => ⟨hafter t ht, hnext t ht⟩

end Condition

end Extent

namespace Condition

section Prefixes

variable {n : ℕ} {ts us : List Token} {p q : Predicate} {op : Connective} {cs : List Char}

/-- Tokens behind which an operand is due, with so many parentheses open: at the start, behind an
opening parenthesis, and behind a connective. -/
inductive Awaits : ℕ → List Token → Prop
  | start : Awaits 0 []
  | paren {n : ℕ} {ts : List Token} (h : Awaits n ts) : Awaits (n + 1) (ts ++ [.leftParen])
  | link {n : ℕ} {ts us : List Token} {p : Predicate} {op : Connective} {cs : List Char}
      (h : Awaits n ts) (hu : Term trees us p) (hop : IsKeyword op cs) :
      Awaits n (ts ++ (us ++ [.word cs]))

/-- Tokens that end with an operand, with so many parentheses open. -/
def Follows (n : ℕ) (ts : List Token) : Prop :=
  ∃ front us p, ts = front ++ us ∧ Awaits n front ∧ Term trees us p

theorem Awaits.clause {t : Token} {l : Literal} (h : Awaits n ts) (op : Operator)
    (hcs : IsPlain cs) (hl : IsLiteral t l) :
    Follows n (ts ++ [.word cs, .op op.symbol.toList, t]) :=
  ⟨ts, _, _, rfl, h, .clause op hcs hl⟩

theorem Follows.link (h : Follows n ts) (hop : IsKeyword op cs) : Awaits n (ts ++ [.word cs]) := by
  obtain ⟨front, us, p, rfl, hfront, hu⟩ := h
  rw [List.append_assoc]
  exact hfront.link hu hop

/-- The operands behind the last open parenthesis are a chain. -/
theorem Awaits.exists_chain (h : Awaits (n + 1) ts) (hu : Term trees us p) :
    ∃ front vs q, ts ++ us = front ++ .leftParen :: vs ∧ Awaits n front ∧ Chain trees vs q := by
  generalize hm : n + 1 = m at h
  induction h generalizing us p with
  | start => cases hm
  | @paren k ts h _ =>
    cases hm
    exact ⟨ts, us, p, by simp, h, .term hu⟩
  | @link k ts us' p' op cs _ hu' hop ih =>
    obtain ⟨front, vs, q, heq, hfront, hchain⟩ := ih hu' hm
    refine ⟨front, vs ++ .word cs :: us, _, ?_, hfront, hchain.link hop hu⟩
    rw [← List.append_assoc ts, heq]
    simp

theorem Follows.close (h : Follows (n + 1) ts) : Follows n (ts ++ [.rightParen]) := by
  obtain ⟨front, us, p, rfl, hfront, hu⟩ := h
  obtain ⟨front', vs, q, heq, hfront', hchain⟩ := hfront.exists_chain hu
  refine ⟨front', .leftParen :: (vs ++ [.rightParen]), q, ?_, hfront', .parens hchain⟩
  rw [heq]
  simp

end Prefixes

section Causes

/-- Why no clause starts with some tokens: the first is no name, or no operator stands behind it, or
no literal behind both. -/
inductive NoClause : List Token → (String → SyntaxError) → Prop
  | subject {t : Token} (ts : List Token) (hleft : t ≠ .leftParen) (hright : t ≠ .rightParen)
      (h : ∀ cs, t = .word cs → ¬ IsPlain cs) : NoClause (t :: ts) .expectedAttribute
  | operator {cs : List Char} {ts : List Token} (hcs : IsPlain cs)
      (h : ∀ op : Operator, .op op.symbol.toList ∉ ts.head?) :
      NoClause (.word cs :: ts) .unknownOperator
  | literal {cs : List Char} {ts : List Token} (hcs : IsPlain cs) (op : Operator)
      (h : ∀ t ∈ ts.head?, ∀ l, ¬ IsLiteral t l) :
      NoClause (.word cs :: .op op.symbol.toList :: ts) .expectedLiteral

/-- An operand starts with a parenthesis, is a clause, or is at fault. -/
theorem operand_cases (text : List Char) (outer : List Waiting) (left : Waiting) (a : Token.At)
    (rest : List Token.At) :
    (a.token = .leftParen ∧
        operand text outer left (a :: rest) = operand text (left :: outer) none rest) ∨
      (∃ o l more cs op lit, rest = o :: l :: more ∧ a.token = .word cs ∧ IsPlain cs ∧
        o.token = .op (Operator.symbol op).toList ∧ IsLiteral l.token lit ∧
        operand text outer left (a :: rest) =
          continued text outer (left.join (.clause ⟨String.ofList cs, op, lit⟩)) more) ∨
      operand text outer left (a :: rest) = unbalanced text ∨
      ∃ cause, NoClause ((a :: rest).map (·.token)) cause ∧
        operand text outer left (a :: rest) = fault text (a :: rest) cause := by
  by_cases hleft : a.token = .leftParen
  · exact .inl ⟨hleft, operand_leftParen text outer left rest hleft⟩
  refine .inr ?_
  cases hname : a.token.name? with
  | none =>
    rw [Position.operand_of_fault outer left hleft (.inl hname)]
    by_cases hright : a.token = .rightParen
    · exact .inr (.inl (clauseFault_rightParen hright))
    · refine .inr (.inr ⟨_, .subject _ hleft hright fun cs hcs hplain => ?_,
        clauseFault_of_name?_eq_none hright hname⟩)
      cases hname.symm.trans (Token.name?_eq_some_iff.mpr ⟨cs, hcs, hplain, rfl⟩)
  | some subject =>
    obtain ⟨cs, hcs, hplain, -⟩ := Token.name?_eq_some_iff.mp hname
    cases hop : (rest[0]?.map (·.token)).bind Token.operator? with
    | none =>
      refine .inr (.inr ⟨.unknownOperator, ?_, ?_⟩)
      · rw [List.map_cons, hcs]
        refine .operator hplain fun op hmem => ?_
        rw [List.head?_map, List.head?_eq_getElem?] at hmem
        rw [Option.mem_def.mp hmem, Option.bind_some, Token.operator?_eq_some_iff.mpr rfl] at hop
        cases hop
      · rw [Position.operand_of_fault outer left hleft (.inr (.inl hop)),
          clauseFault_of_name? hname, hop]
        rfl
    | some op =>
      obtain ⟨o, more, rfl⟩ : ∃ o more, rest = o :: more := by
        cases rest with
        | nil => cases hop
        | cons o more => exact ⟨o, more, rfl⟩
      have ho : o.token = .op op.symbol.toList := Token.operator?_eq_some_iff.mp hop
      cases hlit : (more[0]?.map (·.token)).bind Token.literal? with
      | none =>
        refine .inr (.inr ⟨.expectedLiteral, ?_, ?_⟩)
        · rw [List.map_cons, List.map_cons, hcs, ho]
          refine .literal hplain op fun t ht l hl => ?_
          rw [List.head?_map, List.head?_eq_getElem?] at ht
          rw [Option.mem_def.mp ht, Option.bind_some, Token.literal?_eq_some_iff.mpr hl] at hlit
          cases hlit
        · rw [Position.operand_of_fault outer left hleft (.inr (.inr hlit)),
            clauseFault_of_name? hname, hop]
          rfl
      | some lit =>
        obtain ⟨l, more, rfl⟩ : ∃ l more', more = l :: more' := by
          cases more with
          | nil => cases hlit
          | cons l more => exact ⟨l, more, rfl⟩
        have hl : IsLiteral l.token lit := Token.literal?_eq_some_iff.mp hlit
        exact .inl ⟨o, l, more, cs, op, lit, rfl, hcs, hplain, ho, hl,
          operand_clause text outer left more hcs hplain ho hl⟩

/-- Behind an operand a connective joins another one, and a closing parenthesis ends the one around
it. Whatever else is left is at fault. -/
theorem continued_cases (text : List Char) (outer : List Waiting) (p : Predicate) (a : Token.At)
    (rest : List Token.At) :
    (∃ cs op, a.token = .word cs ∧ IsKeyword op cs ∧
        continued text outer p (a :: rest) = operand text outer (some (p, op)) rest) ∨
      (∃ left inner, outer = left :: inner ∧ a.token = .rightParen ∧
        continued text outer p (a :: rest) = continued text inner (left.join p) rest) ∨
      continued text outer p (a :: rest) = unbalanced text ∨
      continued text outer p (a :: rest) = fault text (a :: rest) .unexpectedToken := by
  cases hc : a.token.connective? with
  | some op =>
    obtain ⟨cs, hcs, hop⟩ := Token.connective?_eq_some_iff.mp hc
    exact .inl ⟨cs, op, hcs, hop, continued_keyword text outer p rest hcs hop⟩
  | none =>
    refine .inr ?_
    cases outer with
    | nil =>
      have hread : continued text [] p (a :: rest) = if a.token = .rightParen then unbalanced text
          else fault text (a :: rest) .unexpectedToken := by
        rw [continued.eq_def]
        simp only [hc]
      rw [hread]
      split_ifs
      · exact .inr (.inl rfl)
      · exact .inr (.inr rfl)
    | cons left inner =>
      by_cases hright : a.token = .rightParen
      · exact .inl ⟨left, inner, rfl, hright, continued_rightParen text left inner p rest hright⟩
      · refine .inr (.inl ?_)
        rw [continued.eq_def]
        simp only [hc, if_neg hright]

end Causes

section Blame

/-- An error that points at a clause: at one that is missing behind all tokens, or at the first one
that is none. -/
inductive AtClause (text : List Char) : SyntaxError → Prop
  | ended {n : ℕ} {tokens : List Token.At} (htokens : tokenize text = .ok tokens)
      (h : Awaits n (tokens.map (·.token))) :
      AtClause text (.expectedAttribute (String.ofList (Text.trim text)))
  | clause {n : ℕ} {before inside after : List Token.At} {first : Token.At}
      {cause : String → SyntaxError} {s : String}
      (htokens : tokenize text = .ok (before ++ first :: (inside ++ after)))
      (hbefore : Awaits n (before.map (·.token)))
      (hcause : NoClause ((first :: (inside ++ after)).map (·.token)) cause)
      (hextent : Extent text before first inside after s.toList) : AtClause text (cause s)

/-- What an error of a text of tokens points at: a clause, what is left behind the condition, or all
of the text where a parenthesis is left over or missing. -/
inductive Blames (text : List Char) : SyntaxError → Prop
  | clause {e : SyntaxError} (h : AtClause text e) : Blames text e
  | unexpected {before inside after : List Token.At} {first : Token.At} {s : String}
      (htokens : tokenize text = .ok (before ++ first :: (inside ++ after)))
      (hextent : Extent text before first inside after s.toList) : Blames text (.unexpectedToken s)
  | unbalanced : Blames text (.unbalancedParens (String.ofList (Text.trim text)))

/-- A fault tells the extent of the clause at its token. -/
theorem exists_of_fault {cause : String → SyntaxError}
    (htext : TokenText (before ++ first :: tokens) text)
    (h : (fault text (first :: tokens) cause : Except SyntaxError Predicate) = .error e) :
    ∃ inside after s, tokens = inside ++ after ∧ Extent text before first inside after s.toList ∧
      e = cause s := by
  have hwithin := htext.within.drop before.length
  rw [List.drop_left] at hwithin
  obtain ⟨s, hs⟩ := hwithin.exists_fragment
  obtain ⟨inside, after, hparts, hextent⟩ := exists_extent htext hs
  rw [fault, hs] at h
  cases h
  exact ⟨inside, after, s, hparts, hextent, rfl⟩

mutual

/-- What is at fault where an operand is due. -/
theorem blames_operand {all : List Token.At} (htokens : tokenize text = .ok all)
    (htext : TokenText all text) (outer : List Waiting) (left : Waiting)
    (before tokens : List Token.At) (hall : all = before ++ tokens)
    (hbefore : Awaits outer.length (before.map (·.token)))
    (h : operand text outer left tokens = .error e) : Blames text e := by
  match tokens, hall, h with
  | [], hall, h =>
    cases h
    rw [List.append_nil] at hall
    exact .clause (.ended htokens (hall ▸ hbefore))
  | a :: rest, hall, h =>
    have hnext : all = (before ++ [a]) ++ rest := by rw [hall, List.append_cons]
    obtain ⟨ha, hread⟩ | ⟨o, l, more, cs, op, lit, rfl, hcs, hplain, ho, hl, hread⟩ | hread |
      ⟨cause, hcause, hread⟩ := operand_cases text outer left a rest
    all_goals rw [hread] at h
    · refine blames_operand htokens htext (left :: outer) none (before ++ [a]) rest hnext ?_ h
      rw [List.map_append, List.map_singleton, ha]
      exact hbefore.paren
    · refine blames_continued htokens htext outer _ (before ++ [a, o, l]) more (by simp [hall]) ?_ h
      rw [List.map_append, List.map_cons, List.map_cons, List.map_singleton, hcs, ho]
      exact hbefore.clause op hplain hl
    · cases h
      exact .unbalanced
    · obtain ⟨inside, after, s, rfl, hextent, rfl⟩ := exists_of_fault (hall ▸ htext) h
      exact .clause (.clause (hall ▸ htokens) hbefore hcause hextent)
termination_by tokens.length

/-- What is at fault behind an operand. -/
theorem blames_continued {all : List Token.At} (htokens : tokenize text = .ok all)
    (htext : TokenText all text) (outer : List Waiting) (p : Predicate)
    (before tokens : List Token.At) (hall : all = before ++ tokens)
    (hbefore : Follows outer.length (before.map (·.token)))
    (h : continued text outer p tokens = .error e) : Blames text e := by
  match tokens, hall, h with
  | [], hall, h =>
    cases outer with
    | nil => cases h
    | cons =>
      cases h
      exact .unbalanced
  | a :: rest, hall, h =>
    have hnext : all = (before ++ [a]) ++ rest := by rw [hall, List.append_cons]
    obtain ⟨cs, op, ha, hop, hread⟩ | ⟨left, inner, rfl, ha, hread⟩ | hread | hread :=
      continued_cases text outer p a rest
    all_goals rw [hread] at h
    · refine blames_operand htokens htext outer _ (before ++ [a]) rest hnext ?_ h
      rw [List.map_append, List.map_singleton, ha]
      exact hbefore.link hop
    · refine blames_continued htokens htext inner _ (before ++ [a]) rest hnext ?_ h
      rw [List.map_append, List.map_singleton, ha]
      exact hbefore.close
    · cases h
      exact .unbalanced
    · obtain ⟨inside, after, s, rfl, hextent, rfl⟩ := exists_of_fault (hall ▸ htext) h
      exact .unexpected (hall ▸ htokens) hextent
termination_by tokens.length

end

/-- A text that is no condition is no tokens, or its tokens tell why. -/
theorem stops_or_blames (h : parse text = .error e) : Stops text e ∨ Blames text e := by
  obtain ⟨tokens, htokens, htext⟩ | ⟨e', he', hstops⟩ := tokenize_cases text
  · rw [parse, htokens, Except.ok_bind] at h
    exact .inr (blames_operand htokens htext [] none [] tokens rfl .start h)
  · rw [parse, he', Except.error_bind] at h
    cases h
    exact .inl hstops

end Blame

end Condition

namespace SyntaxError

/-- The text that an error carries; a failed cut carries none. -/
def piece? : SyntaxError → Option String
  | .missingSelect s | .missingFrom s | .emptyList _ s | .unknownOperator s | .expectedAttribute s
  | .expectedLiteral s | .unterminatedString s | .unbalancedParens s | .unexpectedToken s => some s
  | .badCut .. => none

/-- Whether an error tells of a clause. -/
def TellsClause : SyntaxError → Prop
  | .unknownOperator _ | .expectedLiteral _ | .expectedAttribute _ => True
  | _ => False

/-- An error that carries a contiguous piece of a text. -/
def PointsInto (e : SyntaxError) (text : List Char) : Prop :=
  ∃ s, e.piece? = some s ∧ s.toList <:+: text

theorem PointsInto.mono (h : e.PointsInto rest) (hpart : rest <:+: text) : e.PointsInto text := by
  obtain ⟨s, hs, hpiece⟩ := h
  exact ⟨s, hs, hpiece.trans hpart⟩

end SyntaxError

theorem Text.isInfix_trim (cs : List Char) : Text.trim cs <:+: cs := by
  obtain ⟨gap, gap', -, -, hparts⟩ := Text.exists_trim cs
  exact ⟨gap, gap', by rw [List.append_assoc, ← hparts]⟩

section Pieces

theorem pointsInto_of_isInfix {cs : List Char} {cause : String → SyntaxError}
    (hcause : ∀ s, (cause s).piece? = some s) (h : cs <:+: text) :
    (cause (String.ofList cs)).PointsInto text :=
  ⟨_, hcause _, by rwa [String.toList_ofList]⟩

theorem Stops.pointsInto (h : Stops text e) : e.PointsInto text := by
  cases h with
  | @unclosed tokens front quote _ _ _ cs =>
    exact pointsInto_of_isInfix (fun _ => rfl) (List.suffix_append front _).isInfix
  | @foreign tokens front c _ _ rest =>
    have hmid : [c] <:+: front ++ c :: rest := ⟨front, rest, by simp⟩
    exact pointsInto_of_isInfix (fun _ => rfl) hmid

namespace Condition

theorem NoClause.piece?_eq {ts : List Token} {cause : String → SyntaxError}
    (h : NoClause ts cause) (s : String) : (cause s).piece? = some s := by
  cases h <;> rfl

theorem AtClause.pointsInto (h : AtClause text e) : e.PointsInto text := by
  cases h with
  | ended => exact pointsInto_of_isInfix (fun _ => rfl) (Text.isInfix_trim text)
  | clause _ _ hcause hextent => exact ⟨_, hcause.piece?_eq _, hextent.isInfix⟩

theorem Blames.pointsInto (h : Blames text e) : e.PointsInto text := by
  cases h with
  | clause h => exact h.pointsInto
  | unexpected _ hextent => exact ⟨_, rfl, hextent.isInfix⟩
  | unbalanced => exact pointsInto_of_isInfix (fun _ => rfl) (Text.isInfix_trim text)

theorem pointsInto_of_parse (h : parse text = .error e) : e.PointsInto text :=
  (stops_or_blames h).elim Stops.pointsInto Blames.pointsInto

/-- What tells of a clause points at one. -/
theorem atClause_of_parse (h : parse text = .error e) (htells : e.TellsClause) :
    AtClause text e := by
  rcases stops_or_blames h with hstops | hblames
  · cases hstops <;> cases htells
  · cases hblames with
    | clause h => exact h
    | unexpected => cases htells
    | unbalanced => cases htells

end Condition

end Pieces

namespace Query

/-- Why a text is no query, apart from its condition: it has no `SELECT` or no `FROM`, or an entry
of a list is empty. The error carries all of the text. -/
inductive Misses (text : List Char) : SyntaxError → Prop
  | select : Misses text (.missingSelect (String.ofList text))
  | source : Misses text (.missingFrom (String.ofList text))
  | entry (list : ListClause) : Misses text (.emptyList list (String.ofList text))

/-- A query that asks for a condition: after `SELECT` in front and the first `FROM` behind it, it is
what follows the first `WHERE`, white space aside. -/
inductive Asks (text : List Char) : List Char → Prop
  | mk {kw kw' kw'' selected sources rest rest' rest'' : List Char} {c : Char}
      (text_eq : text = kw ++ c :: rest) (select : Spells "SELECT".toList kw)
      (hc : Text.isAsciiBlank c = true)
      (source : FirstParted "FROM".toList (Text.trimStart (c :: rest)) selected kw' rest')
      (condition : FirstParted "WHERE".toList (Text.trimStart rest') sources kw'' rest'') :
      Asks text (Text.trimStart rest'')

theorem Misses.pointsInto (h : Misses text e) : e.PointsInto text := by
  cases h <;> exact pointsInto_of_isInfix (fun _ => rfl) (List.infix_refl text)

theorem isInfix_body (text : List Char) : body text <:+: text := by
  obtain ⟨gap, -, hbody⟩ := Text.exists_trimEnd (Text.trimEndBy (· == ';') (Text.trim text))
  obtain ⟨semicolons, -, htrim⟩ := Text.exists_trimEndBy (· == ';') (Text.trim text)
  have hfront : body text <+: Text.trim text := by
    refine ⟨gap ++ semicolons, ?_⟩
    rw [← List.append_assoc, body, ← hbody, ← htrim]
  exact hfront.isInfix.trans (Text.isInfix_trim text)

theorem eq_emptyList_of_names {list : ListClause} {query cs : List Char}
    (h : names list query cs = .error e) : e = .emptyList list (String.ofList query) := by
  unfold names at h
  dsimp only at h
  split_ifs at h
  cases h
  rfl

/-- What follows a keyword in a text, white space aside, is a part of it. -/
theorem Parted.isInfix {keyword kw : List Char} (h : Parted keyword text front kw rest) :
    Text.trimStart rest <:+: text := by
  obtain ⟨gap, -, hrest⟩ := Text.exists_trimStart rest
  refine ⟨front ++ (kw ++ gap), [], ?_⟩
  rw [h.text_eq]
  nth_rewrite 2 [hrest]
  simp

theorem Asks.isInfix {condition : List Char} (h : Asks text condition) : condition <:+: text := by
  obtain @⟨kw, _, _, _, _, rest, _, _, c, rfl, -, -, source, condition⟩ := h
  obtain ⟨gap, -, hgap⟩ := Text.exists_trimStart (c :: rest)
  have hselected : Text.trimStart (c :: rest) <:+: kw ++ c :: rest := by
    nth_rewrite 2 [hgap]
    exact ⟨kw ++ gap, [], by simp⟩
  exact (condition.isInfix.trans source.isInfix).trans hselected

/-- A text that is no query lacks a part, or its condition is none or cannot be read. -/
theorem misses_or_asks {text : String} (h : Query.parse text = .error e) :
    Misses (body text.toList) e ∨ ∃ condition, Asks (body text.toList) condition ∧
      ((condition = [] ∧ e = .expectedAttribute (String.ofList (body text.toList))) ∨
        Condition.parse condition = .error e) := by
  unfold Query.parse at h
  dsimp only at h
  obtain hselect | ⟨kw, c, rest, htext, hkw, hc, hselect⟩ := afterSelect_cases (body text.toList)
  · rw [hselect] at h
    cases h
    exact .inl .select
  rw [hselect, Except.ok_bind] at h
  obtain ⟨-, hfrom⟩ | ⟨front, kw', rest', hsource, hfind, hfrom⟩ :=
    splitAt_cases "FROM".toList (Text.trimStart (c :: rest))
  · rw [hfrom] at h
    cases h
    exact .inl .source
  rw [hfrom, Except.ok_bind] at h
  dsimp only at h
  rcases Except.bind_eq_error_iff.mp h with h | ⟨clauses, hwhere, h⟩
  · obtain ⟨-, hcase⟩ | ⟨_, _, _, -, -, hcase⟩ :=
      splitAt_cases "WHERE".toList (Text.trimStart rest')
    · cases hcase.symm.trans h
    · cases hcase.symm.trans h
  rcases Except.bind_eq_error_iff.mp h with h | ⟨select, -, h⟩
  · exact .inl (eq_emptyList_of_names h ▸ .entry .select)
  rcases Except.bind_eq_error_iff.mp h with h | ⟨source, -, h⟩
  · exact .inl (eq_emptyList_of_names h ▸ .entry .source)
  obtain ⟨-, hcase⟩ | ⟨front', kw'', rest'', hcondition, hfind', hcase⟩ :=
    splitAt_cases "WHERE".toList (Text.trimStart rest')
  all_goals cases hcase.symm.trans hwhere
  · cases h
  refine .inr ⟨Text.trimStart rest'', ?_, ?_⟩
  · exact .mk htext hkw hc ⟨hsource, fun h => h.byteSize_le (by decide) hfind⟩
      ⟨hcondition, fun h => h.byteSize_le (by decide) hfind'⟩
  · rcases Except.bind_eq_error_iff.mp h with h | ⟨condition, -, h⟩
    · have hstated := Except.map_eq_error_iff.mp h
      unfold statedCondition at hstated
      split_ifs at hstated with hempty
      · cases hstated
        exact .inl ⟨List.isEmpty_iff.mp hempty, rfl⟩
      · exact .inr hstated
    · cases h

end Query

/-- The error for a text that is no query or no condition carries a piece of it. If it tells of a
clause of the condition, that is the first one that is none, and the piece is this clause: it starts
with its first token, and ends before the next connective or with the condition, white space aside.
Only where the tokens end before a clause, or there is no condition, it is all of the text. -/
theorem SyntaxError.points_at_clause (text : String) (e : SyntaxError) :
    (Predicate.parse text = .error e → e.PointsInto text.toList ∧
      (e.TellsClause → Condition.AtClause text.toList e)) ∧
    (Query.parse text = .error e → e.PointsInto text.toList ∧
      (e.TellsClause → ∃ condition, Query.Asks (Query.body text.toList) condition ∧
        ((condition = [] ∧ e = .expectedAttribute (String.ofList (Query.body text.toList))) ∨
          Condition.AtClause condition e))) := by
  refine ⟨fun h => ⟨Condition.pointsInto_of_parse h, Condition.atClause_of_parse h⟩, fun h => ?_⟩
  have hbody := Query.isInfix_body text.toList
  obtain hmisses | ⟨condition, hasks, hnone | hcondition⟩ := Query.misses_or_asks h
  · refine ⟨hmisses.pointsInto.mono hbody, fun htells => ?_⟩
    cases hmisses <;> cases htells
  · refine ⟨?_, fun _ => ⟨condition, hasks, .inl hnone⟩⟩
    rw [hnone.2]
    exact pointsInto_of_isInfix (fun _ => rfl) hbody
  · refine ⟨(Condition.pointsInto_of_parse hcondition).mono (hasks.isInfix.trans hbody), ?_⟩
    exact fun htells => ⟨condition, hasks, .inr (Condition.atClause_of_parse hcondition htells)⟩

/-- A condition with a clause that lacks its operator, deep inside, and connectives around it and
between quotes. -/
def nestedCondition : String := "name = 'x AND y' or ((id = \"1\") AND (rate 5 and age < 3))"

/-- A query with this condition. -/
def nestedQuery : String := "select * from Persona where " ++ nestedCondition ++ " ;"

theorem SyntaxError.points_at_clause_nested :
    Predicate.parse nestedCondition = .error (.unknownOperator "rate 5") ∧
      Condition.AtClause nestedCondition.toList (.unknownOperator "rate 5") ∧
      Query.parse nestedQuery = .error (.unknownOperator "rate 5") ∧
      ∃ condition, Query.Asks (Query.body nestedQuery.toList) condition ∧
        Condition.AtClause condition (.unknownOperator "rate 5") := by
  have hcondition : Predicate.parse nestedCondition = .error (.unknownOperator "rate 5") := by
    decide +kernel
  have hquery : Query.parse nestedQuery = .error (.unknownOperator "rate 5") := by decide +kernel
  obtain ⟨-, hclause⟩ := (SyntaxError.points_at_clause _ _).1 hcondition
  obtain ⟨-, hstated⟩ := (SyntaxError.points_at_clause _ _).2 hquery
  obtain ⟨condition, hasks, ⟨-, hnone⟩ | hclause'⟩ := hstated trivial
  · cases hnone
  · exact ⟨hcondition, hclause trivial, hquery, condition, hasks, hclause'⟩

end EntityStore
