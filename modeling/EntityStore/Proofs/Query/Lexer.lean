import EntityStore.Proofs.Text.Pieces
import EntityStore.Query.Token

/-! The tokens of a text are those that it was written from, whatever white space and quotes it was
written with. -/
namespace EntityStore

/-- How a character stands between quotes: the quote itself stands twice. -/
def doubled (quote c : Char) : List Char := if c = quote then [c, c] else [c]

/-- What a token is written as; a quoted one stands between quotes of either kind. -/
inductive Token.Spelled : Token → List Char → Prop
  | leftParen : Spelled .leftParen ['(']
  | rightParen : Spelled .rightParen [')']
  | word (cs : List Char) : Spelled (.word cs) cs
  | op (cs : List Char) : Spelled (.op cs) cs
  | quoted {quote : Char} (hquote : Lexer.isQuote quote = true) (cs : List Char) :
      Spelled (.quoted cs) (quote :: (cs.flatMap (doubled quote) ++ [quote]))

/-- A token that can be read: words and operators have characters of their class, at least one. -/
def Token.WellFormed : Token → Prop
  | .word cs => cs ≠ [] ∧ ∀ c ∈ cs, Lexer.isWordChar c = true
  | .op cs => cs ≠ [] ∧ ∀ c ∈ cs, Lexer.isOpChar c = true
  | _ => True

/-- Whether one character goes on with the token that another one ends. -/
def fuses (c d : Char) : Bool :=
  (Lexer.isWordChar c && Lexer.isWordChar d) || (Lexer.isOpChar c && Lexer.isOpChar d)
    || (Lexer.isQuote c && c == d)

/-- A text of tokens that starts at a byte: any white space before, between and after them, and some
where a token would go on with the one before it. -/
inductive Renders : Nat → List Token.At → List Char → Prop
  | nil {place : Nat} {gap : List Char} (hgap : Text.IsBlank gap) : Renders place [] gap
  | cons {place : Nat} {gap cs rest : List Char} {t : Token} {ts : List Token.At}
      (hgap : Text.IsBlank gap) (ht : t.Spelled cs)
      (hsep : ∀ c ∈ cs.getLast?, ∀ d ∈ rest.head?, fuses c d = false)
      (hrest : Renders (place + Text.byteSize gap + Text.byteSize cs) ts rest) :
      Renders place (⟨t, place + Text.byteSize gap⟩ :: ts) (gap ++ (cs ++ rest))

namespace Lexer

variable {c : Char} {cs gap rest chars : List Char} {done : List Token.At} {s : State}
  {place start : Nat} {quote : Char}

section Characters

/-- White space belongs to no token. -/
theorem classes_of_isBlank (h : Text.isBlank c = true) :
    isWordChar c = false ∧ isOpChar c = false ∧ isQuote c = false := by
  have hnone : (!isWordChar c && !isOpChar c && !isQuote c) = true :=
    Text.forall_blank (p := fun c => !isWordChar c && !isOpChar c && !isQuote c)
      (by decide +kernel) h
  simpa [and_assoc] using hnone

/-- A character of no class goes on with no token. -/
theorem fuses_of_classless {d : Char}
    (hd : isWordChar d = false ∧ isOpChar d = false ∧ isQuote d = false) (c : Char) :
    fuses c d = false := by
  obtain ⟨hword, hop, hquote⟩ := hd
  have hsame : (isQuote c && c == d) = false := by
    by_cases hc : c = d
    · rw [hc, hquote, Bool.false_and]
    · rw [beq_eq_false_iff_ne.mpr hc, Bool.and_false]
  rw [fuses, hword, hop, hsame, Bool.and_false, Bool.and_false]
  rfl

theorem fuses_blank {d : Char} (hd : Text.isBlank d = true) (c : Char) : fuses c d = false :=
  fuses_of_classless (classes_of_isBlank hd) c

theorem classes_of_isQuote (hc : isQuote c = true) :
    isWordChar c = false ∧ isOpChar c = false := by
  simp only [isQuote, Bool.or_eq_true, beq_iff_eq] at hc
  rcases hc with rfl | rfl <;> exact ⟨rfl, rfl⟩

/-- A quote goes on with a token that ends with the same one only. -/
theorem quote_fuses (hc : isQuote c = true) (d : Char) : fuses c d = (c == d) := by
  obtain ⟨hword, hop⟩ := classes_of_isQuote hc
  rw [fuses, hword, hop, hc, Bool.true_and]
  rfl

/-- Nothing goes on with a character of no class. -/
theorem classless_fuses (hc : isWordChar c = false ∧ isOpChar c = false ∧ isQuote c = false)
    (d : Char) : fuses c d = false := by
  rw [fuses, hc.1, hc.2.1, hc.2.2]
  rfl

theorem not_isBlank {p : Char → Bool} (hp : ∀ c, Text.isBlank c = true → p c = false)
    (h : p c = true) : Text.isBlank c = false := by
  cases hblank : Text.isBlank c with
  | false => rfl
  | true =>
    rw [hp c hblank] at h
    cases h

theorem ne_of_class {p : Char → Bool} {d : Char} (h : p c = true) (hd : p d = false) : c ≠ d := by
  rintro rfl
  rw [h] at hd
  cases hd

theorem begin_blank (h : Text.isBlank c = true) : begin done place c = .ok ⟨done, .none, place⟩ :=
  if_pos h

theorem begin_quote (h : isQuote c = true) :
    begin done place c = .ok ⟨done, .quoted c [], place⟩ := by
  have hblank : Text.isBlank c = false :=
    not_isBlank (fun _ hc => (classes_of_isBlank hc).2.2) h
  simp only [begin, hblank, ne_of_class h (d := '(') rfl, ne_of_class h (d := ')') rfl, h,
    Bool.false_eq_true, if_false, if_true]

theorem not_isQuote_of_isOpChar (h : isOpChar c = true) : isQuote c = false := by
  simp only [isOpChar, Bool.or_eq_true, beq_iff_eq] at h
  rcases h with ((rfl | rfl) | rfl) | rfl <;> rfl

theorem not_isQuote_of_isWordChar (h : isWordChar c = true) : isQuote c = false := by
  simp only [isQuote, Bool.or_eq_false_iff, beq_eq_false_iff_ne]
  exact ⟨ne_of_class h rfl, ne_of_class h rfl⟩

theorem not_isOpChar_of_isWordChar (h : isWordChar c = true) : isOpChar c = false := by
  simp only [isOpChar, Bool.or_eq_false_iff, beq_eq_false_iff_ne]
  exact ⟨⟨⟨ne_of_class h rfl, ne_of_class h rfl⟩, ne_of_class h rfl⟩, ne_of_class h rfl⟩

theorem not_isWordChar_of_isOpChar (h : isOpChar c = true) : isWordChar c = false := by
  cases hword : isWordChar c with
  | false => rfl
  | true => exact h.symm.trans (not_isOpChar_of_isWordChar hword)

theorem begin_op (h : isOpChar c = true) : begin done place c = .ok ⟨done, .op [c], place⟩ := by
  have hblank : Text.isBlank c = false :=
    not_isBlank (fun _ hc => (classes_of_isBlank hc).2.1) h
  simp only [begin, hblank, ne_of_class h (d := '(') rfl, ne_of_class h (d := ')') rfl,
    not_isQuote_of_isOpChar h, h, Bool.false_eq_true, if_false, if_true]

theorem begin_word (h : isWordChar c = true) :
    begin done place c = .ok ⟨done, .word [c], place⟩ := by
  have hblank : Text.isBlank c = false := not_isBlank (fun _ hc => (classes_of_isBlank hc).1) h
  simp only [begin, hblank, ne_of_class h (d := '(') rfl, ne_of_class h (d := ')') rfl,
    not_isQuote_of_isWordChar h, not_isOpChar_of_isWordChar h, h, Bool.false_eq_true, if_false,
    if_true]

end Characters

section Ready

/-- A state that holds the tokens `done` and will read a token of its own from the text. -/
structure Ready (s : State) (done : List Token.At) (rest : List Char) : Prop where
  flush : s.flush = done
  closed : ∀ quote chars, s.pending ≠ .quoted quote chars
  step : ∀ c ∈ rest.head?, ∀ place, step s place c = begin done place c

theorem Ready.of_none (done : List Token.At) (start : Nat) (rest : List Char) :
    Ready ⟨done, .none, start⟩ done rest :=
  ⟨rfl, fun _ _ => nofun, fun _ _ _ => rfl⟩

theorem run_cons (s : State) (place : Nat) (c : Char) (cs : List Char) :
    run s place (c :: cs) = (step s place c).bind fun s => run s (place + c.utf8Size) cs := rfl

/-- The first character of what is due starts a token. -/
theorem Ready.run_cons (hs : Ready s done (c :: cs)) (place : Nat) {t : State}
    (hbegin : begin done place c = .ok t) (rest : List Char) :
    run s place (c :: rest) = run t (place + c.utf8Size) rest := by
  rw [Lexer.run_cons, hs.step c rfl place, hbegin]
  rfl

theorem run_blank (done : List Token.At) (start place : Nat) (hgap : Text.IsBlank gap) :
    ∃ last, run ⟨done, .none, start⟩ place gap = .ok ⟨done, .none, last⟩ := by
  induction gap generalizing start place with
  | nil => exact ⟨start, rfl⟩
  | cons c cs ih =>
    obtain ⟨hc, hcs⟩ := List.forall_mem_cons.mp hgap
    obtain ⟨last, hlast⟩ := ih place (place + c.utf8Size) hcs
    have hready := Ready.of_none done start (c :: cs)
    exact ⟨last, (hready.run_cons place (begin_blank hc) cs).trans hlast⟩

theorem Ready.run_gap (hs : Ready s done (gap ++ rest)) (hgap : Text.IsBlank gap) (place : Nat) :
    ∃ t, run s place gap = .ok t ∧ Ready t done rest := by
  cases gap with
  | nil => exact ⟨s, rfl, hs⟩
  | cons c cs =>
    obtain ⟨hc, hcs⟩ := List.forall_mem_cons.mp hgap
    obtain ⟨last, hlast⟩ := run_blank done place (place + c.utf8Size) hcs
    exact ⟨_, (hs.run_cons place (begin_blank hc) cs).trans hlast, .of_none done last rest⟩

end Ready

section Tokens

/-- A kind of token that goes on as long as the characters are of a class. -/
structure Lasts (p : Char → Bool) (pending : List Char → Pending) (token : List Char → Token) :
    Prop where
  spelled : ∀ cs, (token cs).Spelled cs
  wellFormed : ∀ {cs}, cs ≠ [] → (∀ c ∈ cs, p c = true) → (token cs).WellFormed
  start : ∀ {done place c}, p c = true → begin done place c = .ok ⟨done, pending [c], place⟩
  next : ∀ {done chars start place c}, p c = true →
    step ⟨done, pending chars, start⟩ place c = .ok ⟨done, pending (c :: chars), start⟩
  stop : ∀ {done chars start place c}, p c = false → step ⟨done, pending chars, start⟩ place c =
    begin (⟨token chars.reverse, start⟩ :: done) place c
  flush : ∀ {done chars start}, State.flush ⟨done, pending chars, start⟩ =
    ⟨token chars.reverse, start⟩ :: done
  closed : ∀ {chars quote cs}, pending chars ≠ .quoted quote cs
  fuses : ∀ {c d}, p c = true → fuses c d = p d

theorem lasts_word : Lasts isWordChar .word .word where
  spelled := .word
  wellFormed := .intro
  start := begin_word
  next h := if_pos h
  stop h := if_neg (by simp [h])
  flush := rfl
  closed := nofun
  fuses hc := by
    simp only [EntityStore.fuses, hc, not_isOpChar_of_isWordChar hc, not_isQuote_of_isWordChar hc,
      Bool.true_and, Bool.false_and, Bool.or_false]

theorem lasts_op : Lasts isOpChar .op .op where
  spelled := .op
  wellFormed := .intro
  start := begin_op
  next h := if_pos h
  stop h := if_neg (by simp [h])
  flush := rfl
  closed := nofun
  fuses hc := by
    simp only [EntityStore.fuses, hc, not_isWordChar_of_isOpChar hc, not_isQuote_of_isOpChar hc,
      Bool.true_and, Bool.false_and, Bool.false_or, Bool.or_false]

variable {p : Char → Bool} {pending : List Char → Pending} {token : List Char → Token}

theorem Lasts.run (hp : Lasts p pending token) (h : ∀ c ∈ cs, p c = true) (chars : List Char)
    (place : Nat) : Lexer.run ⟨done, pending chars, start⟩ place cs =
      .ok ⟨done, pending (cs.reverse ++ chars), start⟩ := by
  induction cs generalizing chars place with
  | nil => rfl
  | cons c cs ih =>
    obtain ⟨hc, hcs⟩ := List.forall_mem_cons.mp h
    rw [run_cons, hp.next hc, List.reverse_cons, List.append_assoc]
    exact ih hcs (c :: chars) (place + c.utf8Size)

/-- A token of such a kind is read up to a character that does not go on with it. -/
theorem Ready.run_lasts (hs : Ready s done (cs ++ rest)) (hp : Lasts p pending token)
    (hne : cs ≠ []) (h : ∀ c ∈ cs, p c = true)
    (hsep : ∀ c ∈ cs.getLast?, ∀ d ∈ rest.head?, fuses c d = false) (place : Nat) :
    ∃ t, run s place cs = .ok t ∧ Ready t (⟨token cs, place⟩ :: done) rest := by
  have hlast := List.getLast?_eq_some_getLast hne
  have hp' := h _ (List.getLast_mem hne)
  obtain ⟨c, cs, rfl⟩ := List.exists_cons_of_ne_nil hne
  obtain ⟨hc, hcs⟩ := List.forall_mem_cons.mp h
  have hchars : (cs.reverse ++ [c]).reverse = c :: cs := by simp
  refine ⟨_, (hs.run_cons place (hp.start hc) cs).trans (hp.run hcs _ _), ?_⟩
  refine ⟨by rw [hp.flush, hchars], fun _ _ => hp.closed, fun d hd place' => ?_⟩
  rw [hp.stop ((hp.fuses hp').symm.trans (hsep _ hlast d hd)), hchars]

/-- Whatever stands between quotes is read as it was before its quotes were doubled. -/
theorem run_doubled (quote : Char) (cs chars : List Char) (place : Nat) :
    run ⟨done, .quoted quote chars, start⟩ place (cs.flatMap (doubled quote)) =
      .ok ⟨done, .quoted quote (cs.reverse ++ chars), start⟩ := by
  induction cs generalizing chars place with
  | nil => rfl
  | cons c cs ih =>
    rw [List.flatMap_cons, List.reverse_cons, List.append_assoc, doubled]
    split_ifs with hc
    · subst hc
      have hseen : step ⟨done, .quoted c chars, start⟩ place c =
          .ok ⟨done, .quoteSeen c chars, start⟩ := if_pos rfl
      have hagain : step ⟨done, .quoteSeen c chars, start⟩ (place + c.utf8Size) c =
          .ok ⟨done, .quoted c (c :: chars), start⟩ := if_pos rfl
      show run _ place (c :: c :: _) = _
      rw [run_cons, hseen, Except.bind, run_cons, hagain]
      exact ih (c :: chars) _
    · have hstep : step ⟨done, .quoted quote chars, start⟩ place c =
          .ok ⟨done, .quoted quote (c :: chars), start⟩ := if_neg hc
      show run _ place (c :: _) = _
      rw [run_cons, hstep]
      exact ih (c :: chars) _

theorem run_quoted (quote : Char) (cs : List Char) (place : Nat) :
    run ⟨done, .quoted quote [], start⟩ place (cs.flatMap (doubled quote) ++ [quote]) =
      .ok ⟨done, .quoteSeen quote cs.reverse, start⟩ := by
  rw [run_append, run_doubled, List.append_nil, Except.bind, run_cons]
  have hstep (place : Nat) : step ⟨done, .quoted quote cs.reverse, start⟩ place quote =
      .ok ⟨done, .quoteSeen quote cs.reverse, start⟩ := if_pos rfl
  rw [hstep]
  rfl

/-- A token is read from what it is written as, up to a character that does not go on with it. -/
theorem Ready.run_spelled {t : Token} (ht : t.Spelled cs) (hwell : t.WellFormed)
    (hs : Ready s done (cs ++ rest))
    (hsep : ∀ c ∈ cs.getLast?, ∀ d ∈ rest.head?, fuses c d = false) (place : Nat) :
    ∃ u, run s place cs = .ok u ∧ Ready u (⟨t, place⟩ :: done) rest := by
  cases ht with
  | leftParen => exact ⟨_, hs.run_cons place rfl [], .of_none _ place rest⟩
  | rightParen => exact ⟨_, hs.run_cons place rfl [], .of_none _ place rest⟩
  | word => exact hs.run_lasts lasts_word hwell.1 hwell.2 hsep place
  | op => exact hs.run_lasts lasts_op hwell.1 hwell.2 hsep place
  | @quoted quote hquote cs =>
    refine ⟨_, (hs.run_cons place (begin_quote hquote) _).trans (run_quoted quote cs _), ?_⟩
    have hflush : State.flush ⟨done, .quoteSeen quote cs.reverse, place⟩ =
        ⟨.quoted cs, place⟩ :: done := by simp [State.flush]
    refine ⟨hflush, fun _ _ => nofun, fun d hd p => ?_⟩
    have hlast : quote ∈ (quote :: (cs.flatMap (doubled quote) ++ [quote])).getLast? := by
      rw [← List.cons_append, List.getLast?_concat]
      rfl
    have hd : d ≠ quote := by
      have hfuse := hsep quote hlast d hd
      rw [quote_fuses hquote, beq_eq_false_iff_ne] at hfuse
      exact hfuse.symm
    rw [← hflush]
    exact if_neg hd

/-- What stands apart from a text stands apart from it with more after it, be it empty. -/
theorem apart_append {after : List Char}
    (hsep : ∀ c ∈ cs.getLast?, ∀ d ∈ rest.head?, fuses c d = false)
    (hafter : rest = [] → ∀ c ∈ cs.getLast?, ∀ d ∈ after.head?, fuses c d = false) :
    ∀ c ∈ cs.getLast?, ∀ d ∈ (rest ++ after).head?, fuses c d = false := by
  cases rest with
  | nil => exact hafter rfl
  | cons d ds => exact hsep

/-- The tokens of a text are read one after another, each with its start, up to a character that
does not go on with the last one. -/
theorem run_renders {tokens : List Token.At} {text after : List Char}
    (h : Renders place tokens text) (hwell : ∀ a ∈ tokens, a.token.WellFormed)
    (hafter : ∀ c ∈ text.getLast?, ∀ d ∈ after.head?, fuses c d = false)
    (hs : Ready s done (text ++ after)) :
    ∃ t, run s place text = .ok t ∧ Ready t (tokens.reverse ++ done) after := by
  induction h generalizing s done with
  | @nil place gap hgap => exact hs.run_gap hgap place
  | @cons place gap cs rest t ts hgap ht hsep _ ih =>
    obtain ⟨ht', hts⟩ := List.forall_mem_cons.mp hwell
    rw [List.append_assoc, List.append_assoc] at hs
    obtain ⟨u, hu, hready⟩ := hs.run_gap hgap place
    obtain ⟨v, hv, hready⟩ := hready.run_spelled ht ht' (apart_append hsep fun hrest c hc =>
      hafter c (by simp [hrest, Option.mem_def.mp hc])) (place + Text.byteSize gap)
    obtain ⟨w, hw, hready⟩ := ih hts (fun c hc => hafter c (by simp [Option.mem_def.mp hc])) hready
    refine ⟨w, ?_, ?_⟩
    · rw [run_append, hu, Except.bind, run_append, hv, Except.bind]
      exact hw
    · rwa [List.reverse_cons, List.append_assoc]

end Tokens

end Lexer

/-- A text is read as the tokens that it was written from. -/
theorem tokenize_of_renders {tokens : List Token.At} {text : List Char}
    (h : Renders 0 tokens text) (hwell : ∀ a ∈ tokens, a.token.WellFormed) :
    tokenize text = .ok tokens := by
  have hafter : ∀ c ∈ text.getLast?, ∀ d ∈ [].head?, fuses c d = false := fun _ _ => nofun
  obtain ⟨s, hrun, hready⟩ := Lexer.run_renders h hwell hafter (.of_none [] 0 _)
  have hflush : s.flush.reverse = tokens := by
    rw [hready.flush, List.append_nil, List.reverse_reverse]
  unfold tokenize
  have hinitial : Lexer.State.initial = ⟨[], .none, 0⟩ := rfl
  rw [hinitial, hrun]
  dsimp only [bind, Except.bind]
  split
  next quote chars hpending => exact absurd hpending (hready.closed quote chars)
  next => exact congrArg Except.ok hflush

end EntityStore
