import EntityStore.Proofs.Query.Condition
import EntityStore.Proofs.Query.Parting
import EntityStore.Proofs.Query.Tokens

/-! Texts are cut between characters only: the readers of queries and conditions never fail for a
cut. -/
namespace EntityStore

variable {text cs front rest : List Char} {tokens : List Token.At} {i j : ℕ}

namespace Text

/-- A byte of a text between two characters, or at one of its ends. -/
def IsBoundary (cs : List Char) (i : ℕ) : Prop :=
  ∃ front rest, cs = front ++ rest ∧ byteSize front = i

section Slice

theorem dropBytes?_eq_some (h : dropBytes? i cs = some rest) :
    ∃ front, cs = front ++ rest ∧ byteSize front = i := by
  induction cs generalizing i with
  | nil =>
    cases i with
    | zero =>
      cases h
      exact ⟨[], rfl, rfl⟩
    | succ i => cases h
  | cons c cs ih =>
    cases i with
    | zero =>
      cases h
      exact ⟨[], rfl, rfl⟩
    | succ i =>
      rw [dropBytes?] at h
      split_ifs at h with hle
      obtain ⟨front, rfl, hfront⟩ := ih h
      refine ⟨c :: front, rfl, ?_⟩
      rw [byteSize, hfront]
      omega

theorem takeBytes?_eq_some (h : takeBytes? i cs = some front) :
    ∃ rest, cs = front ++ rest ∧ byteSize front = i := by
  induction cs generalizing i front with
  | nil =>
    cases i with
    | zero =>
      cases h
      exact ⟨[], rfl, rfl⟩
    | succ i => cases h
  | cons c cs ih =>
    cases i with
    | zero =>
      cases h
      exact ⟨c :: cs, rfl, rfl⟩
    | succ i =>
      rw [takeBytes?] at h
      split_ifs at h with hle
      obtain ⟨front, hfront, rfl⟩ := Option.map_eq_some_iff.mp h
      obtain ⟨rest, rfl, hsize⟩ := ih hfront
      refine ⟨rest, rfl, ?_⟩
      rw [byteSize, hsize]
      omega

/-- A text can be cut from one byte to another exactly where both are boundaries, in order. -/
theorem exists_slice?_iff : (∃ piece, slice? i j cs = some piece) ↔
    i ≤ j ∧ IsBoundary cs i ∧ IsBoundary cs j := by
  constructor
  · rintro ⟨piece, h⟩
    unfold slice? at h
    split_ifs at h with hle
    obtain ⟨rest, hdrop, htake⟩ := Option.bind_eq_some_iff.mp h
    obtain ⟨front, rfl, hfront⟩ := dropBytes?_eq_some hdrop
    obtain ⟨rest, rfl, hpiece⟩ := takeBytes?_eq_some htake
    refine ⟨hle, ⟨front, piece ++ rest, rfl, hfront⟩, front ++ piece, rest, by simp, ?_⟩
    rw [byteSize_append, hfront, hpiece]
    omega
  · rintro ⟨hle, ⟨front, rest, rfl, rfl⟩, front', rest', heq, rfl⟩
    -- The shorter front is the start of the other one.
    obtain ⟨piece, hpiece, hrest⟩ | ⟨piece, hpiece, hrest⟩ := List.append_eq_append_iff.mp heq
    · refine ⟨piece, ?_⟩
      rw [hpiece, hrest, byteSize_append]
      exact slice?_append front piece rest'
    · have hnil : byteSize piece = 0 := by
        rw [hpiece, byteSize_append] at hle
        omega
      refine ⟨[], ?_⟩
      have hslice := slice?_append front [] rest
      rw [hpiece, byteSize_append, hnil] at *
      simpa [byteSize] using hslice

theorem IsBoundary.le (h : IsBoundary cs i) : i ≤ byteSize cs := by
  obtain ⟨front, rest, rfl, rfl⟩ := h
  rw [byteSize_append]
  exact Nat.le_add_right _ _

theorem isBoundary_end (cs : List Char) : IsBoundary cs (byteSize cs) :=
  ⟨cs, [], (List.append_nil cs).symm, rfl⟩

end Slice

end Text

section Tokens

/-- Tokens that start between characters of a text, each behind those before it. -/
structure Token.Within (text : List Char) (tokens : List Token.At) : Prop where
  starts : ∀ t ∈ tokens, Text.IsBoundary text t.start
  sorted : tokens.Pairwise fun a b => a.start ≤ b.start

theorem Renders.starts (h : Renders (Text.byteSize front) tokens rest) :
    (∀ t ∈ tokens, Text.byteSize front ≤ t.start ∧ Text.IsBoundary (front ++ rest) t.start) ∧
      tokens.Pairwise fun a b => a.start ≤ b.start := by
  generalize hplace : Text.byteSize front = place at h
  induction h generalizing front with
  | nil _ => exact ⟨nofun, .nil⟩
  | @cons place gap cs rest t ts _ _ _ _ ih =>
    have hnext : Text.byteSize (front ++ (gap ++ cs)) =
        place + Text.byteSize gap + Text.byteSize cs := by
      simp only [Text.byteSize_append, hplace, Nat.add_assoc]
    obtain ⟨hstarts, hsorted⟩ := ih hnext
    have htext : front ++ (gap ++ cs) ++ rest = front ++ (gap ++ (cs ++ rest)) := by simp
    rw [htext] at hstarts
    have hboundary : Text.IsBoundary (front ++ (gap ++ (cs ++ rest)))
        (place + Text.byteSize gap) := by
      refine ⟨front ++ gap, cs ++ rest, by simp, ?_⟩
      rw [Text.byteSize_append, hplace]
    refine ⟨List.forall_mem_cons.mpr ⟨⟨Nat.le_add_right _ _, hboundary⟩, fun u hu => ?_⟩,
      List.pairwise_cons.mpr ⟨fun u hu => ?_, hsorted⟩⟩
    · obtain ⟨hle, hu⟩ := hstarts u hu
      exact ⟨by omega, hu⟩
    · have hle := (hstarts u hu).1
      dsimp only
      omega

theorem TokenText.within (h : TokenText tokens text) : Token.Within text tokens := by
  have hrenders : Renders (Text.byteSize []) tokens text := h.renders
  obtain ⟨hstarts, hsorted⟩ := hrenders.starts
  exact ⟨fun t ht => (hstarts t ht).2, hsorted⟩

theorem Token.Within.tail {t : Token.At} (h : Token.Within text (t :: tokens)) :
    Token.Within text tokens :=
  ⟨fun u hu => h.starts u (List.mem_cons_of_mem t hu), (List.pairwise_cons.mp h.sorted).2⟩

theorem Token.Within.drop (h : Token.Within text tokens) (i : ℕ) :
    Token.Within text (tokens.drop i) :=
  ⟨fun t ht => h.starts t (List.mem_of_mem_drop ht), h.sorted.sublist (List.drop_sublist i tokens)⟩

/-- Where the clause of the first of some tokens ends: at the next connective. -/
def Condition.clauseEnd (text : List Char) (rest : List Token.At) : ℕ :=
  ((rest.find? fun t => t.token.connective?.isSome).map (·.start)).getD (Text.byteSize text)

theorem Condition.fragment_cons (text : List Char) (first : Token.At) (rest : List Token.At) :
    Condition.fragment text (first :: rest) =
      (cut text first.start (Condition.clauseEnd text rest) >>= fun piece =>
        .ok (String.ofList (Text.trim piece))) := rfl

theorem Token.Within.exists_slice {first : Token.At} (h : Token.Within text (first :: tokens)) :
    ∃ piece, Text.slice? first.start (Condition.clauseEnd text tokens) text = some piece := by
  have hfirst := h.starts first List.mem_cons_self
  refine Text.exists_slice?_iff.mpr ?_
  unfold Condition.clauseEnd
  cases hfind : tokens.find? fun t => t.token.connective?.isSome with
  | none => exact ⟨hfirst.le, hfirst, Text.isBoundary_end text⟩
  | some t =>
    have hmem := List.mem_of_find?_eq_some hfind
    exact ⟨(List.pairwise_cons.mp h.sorted).1 t hmem, hfirst,
      h.starts t (List.mem_cons_of_mem first hmem)⟩

theorem Token.Within.exists_fragment (h : Token.Within text tokens) :
    ∃ s, Condition.fragment text tokens = .ok s := by
  cases tokens with
  | nil => exact ⟨_, rfl⟩
  | cons first rest =>
    obtain ⟨piece, hpiece⟩ := h.exists_slice
    refine ⟨String.ofList (Text.trim piece), ?_⟩
    rw [Condition.fragment_cons, cut, hpiece]
    rfl

end Tokens

section Uncut

/-- A reader's outcome, other than that a cut failed. -/
def Uncut {α : Type} (x : Except SyntaxError α) : Prop := ∀ i j, x ≠ .error (.badCut i j)

theorem Uncut.ok {α : Type} (a : α) : Uncut (.ok a) := nofun

theorem Uncut.bind {α β : Type} {x : Except SyntaxError α} {f : α → Except SyntaxError β}
    (hx : Uncut x) (hf : ∀ a, x = .ok a → Uncut (f a)) : Uncut (x >>= f) := by
  cases x with
  | error e =>
    intro i j h
    cases h
    exact hx i j rfl
  | ok a => exact hf a rfl

theorem Uncut.map {α β : Type} {x : Except SyntaxError α} (hx : Uncut x) (f : α → β) :
    Uncut (x.map f) := by
  cases x with
  | error e =>
    intro i j h
    cases h
    exact hx i j rfl
  | ok a => exact .ok (f a)

theorem Stops.uncut {e : SyntaxError} (h : Stops text e) {α : Type} :
    Uncut (.error e : Except SyntaxError α) := by
  cases h <;> exact nofun

theorem uncut_tokenize (text : List Char) : Uncut (tokenize text) := by
  obtain ⟨tokens, htokens, -⟩ | ⟨e, he, hstops⟩ := tokenize_cases text
  · rw [htokens]
    exact .ok tokens
  · rw [he]
    exact hstops.uncut

namespace Condition

theorem uncut_fault {α : Type} (h : Token.Within text tokens) {cause : String → SyntaxError}
    (hcause : ∀ s i j, cause s ≠ .badCut i j) : Uncut (fault text tokens cause : Except _ α) := by
  obtain ⟨s, hs⟩ := h.exists_fragment
  intro i j heq
  rw [fault, hs] at heq
  exact hcause s i j (Except.error.inj heq)

theorem uncut_unbalanced {α : Type} (text : List Char) :
    Uncut (unbalanced text : Except _ α) := nofun

theorem clauseFault_rightParen {α : Type} {a : Token.At} {rest : List Token.At}
    (ha : a.token = .rightParen) :
    (clauseFault text (a :: rest) : Except SyntaxError α) = unbalanced text := by
  rw [clauseFault.eq_def]
  exact if_pos ha

theorem clauseFault_of_name?_eq_none {α : Type} {a : Token.At} {rest : List Token.At}
    (ha : a.token ≠ .rightParen) (hname : a.token.name? = none) :
    (clauseFault text (a :: rest) : Except SyntaxError α) =
      fault text (a :: rest) .expectedAttribute := by
  rw [clauseFault.eq_def]
  dsimp only
  rw [if_neg ha, hname, Option.isNone_none, if_pos rfl]

/-- Behind a name, the token that is missing or wrong tells why no clause stands. -/
theorem clauseFault_of_name? {α : Type} {a : Token.At} {subject : String} {rest : List Token.At}
    (hname : a.token.name? = some subject) :
    (clauseFault text (a :: rest) : Except SyntaxError α) =
      fault text (a :: rest)
        (if ((rest[0]?.map (·.token)).bind Token.operator?).isNone then .unknownOperator
          else .expectedLiteral) := by
  have hright : a.token ≠ .rightParen := fun h => by
    rw [h] at hname
    cases hname
  rw [clauseFault.eq_def]
  dsimp only
  rw [if_neg hright, hname, Option.isNone_some, if_neg Bool.false_ne_true]
  cases rest with
  | nil => rfl
  | cons o rest =>
    show (if o.token.operator?.isNone then _ else _) =
      fault text (a :: o :: rest) (if o.token.operator?.isNone then _ else _)
    split_ifs <;> rfl

theorem uncut_clauseFault {α : Type} (h : Token.Within text tokens) :
    Uncut (clauseFault text tokens : Except _ α) := by
  cases tokens with
  | nil => exact uncut_fault h fun _ _ _ => nofun
  | cons a rest =>
    by_cases ha : a.token = .rightParen
    · rw [clauseFault_rightParen ha]
      exact uncut_unbalanced text
    · cases hname : a.token.name? with
      | none =>
        rw [clauseFault_of_name?_eq_none ha hname]
        exact uncut_fault h fun _ _ _ => nofun
      | some subject =>
        rw [clauseFault_of_name? hname]
        split_ifs
        · exact uncut_fault h fun _ _ _ => nofun
        · exact uncut_fault h fun _ _ _ => nofun

mutual

theorem uncut_operand (text : List Char) (outer : List Waiting) (left : Waiting)
    (tokens : List Token.At) (h : Token.Within text tokens) :
    Uncut (operand text outer left tokens) := by
  match tokens, h with
  | [], h => exact uncut_clauseFault h
  | a :: rest, h =>
    by_cases ha : a.token = .leftParen
    · rw [operand_leftParen text outer left rest ha]
      exact uncut_operand text (left :: outer) none rest h.tail
    · rw [operand.eq_def]
      simp only [if_neg ha]
      split
      next o l rest' =>
        split
        next => exact uncut_continued text outer _ rest' h.tail.tail.tail
        next => exact uncut_clauseFault h
      next => exact uncut_clauseFault h
termination_by tokens.length

theorem uncut_continued (text : List Char) (outer : List Waiting) (p : Predicate)
    (tokens : List Token.At) (h : Token.Within text tokens) :
    Uncut (continued text outer p tokens) := by
  match tokens, h with
  | [], h =>
    cases outer with
    | nil => exact .ok p
    | cons => exact uncut_unbalanced text
  | a :: rest, h =>
    cases hc : a.token.connective? with
    | some op =>
      obtain ⟨cs, hcs, hop⟩ := Token.connective?_eq_some_iff.mp hc
      rw [continued_keyword text outer p rest hcs hop]
      exact uncut_operand text outer _ rest h.tail
    | none =>
      rw [continued.eq_def]
      simp only [hc]
      cases outer with
      | nil =>
        simp only
        split_ifs
        · exact uncut_unbalanced text
        · exact uncut_fault h fun _ _ _ => nofun
      | cons left outer =>
        simp only
        split_ifs
        · exact uncut_continued text outer _ rest h.tail
        · exact uncut_unbalanced text
termination_by tokens.length

end

theorem uncut_parse (text : List Char) : Uncut (Condition.parse text) := by
  refine (uncut_tokenize text).bind fun tokens htokens => ?_
  obtain ⟨tokens', htokens', htext⟩ | ⟨e, he, -⟩ := tokenize_cases text
  · cases htokens.symm.trans htokens'
    exact uncut_operand text [] none tokens htext.within
  · cases htokens.symm.trans he

end Condition

namespace Query

theorem uncut_names (list : ListClause) (query text : List Char) :
    Uncut (names list query text) := by
  unfold names
  dsimp only
  split_ifs
  · exact nofun
  · exact .ok _

theorem uncut_afterSelect (text : List Char) : Uncut (afterSelect text) := by
  obtain h | ⟨kw, c, rest, -, -, -, h⟩ := afterSelect_cases text
  · rw [h]
    exact nofun
  · rw [h]
    exact .ok _

theorem uncut_splitAt (keyword text : List Char) : Uncut (Query.splitAt keyword text) := by
  obtain ⟨-, h⟩ | ⟨front, kw, rest, -, -, h⟩ := splitAt_cases keyword text
  · rw [h]
    exact .ok _
  · rw [h]
    exact .ok _

theorem uncut_statedCondition (query text : List Char) : Uncut (statedCondition query text) := by
  unfold statedCondition
  split_ifs
  · exact nofun
  · exact Condition.uncut_parse text

theorem uncut_parse (text : String) : Uncut (Query.parse text) := by
  unfold Query.parse
  refine (uncut_afterSelect _).bind fun rest _ => (uncut_splitAt _ _).bind fun clauses _ => ?_
  cases clauses with
  | none => exact nofun
  | some pieces =>
    refine (uncut_splitAt _ _).bind fun clauses _ => (uncut_names _ _ _).bind fun select _ =>
      (uncut_names _ _ _).bind fun source _ => ?_
    cases clauses with
    | none => exact .ok _
    | some pieces => exact ((uncut_statedCondition _ _).map some).bind fun condition _ => .ok _

end Query

end Uncut

end EntityStore
