import EntityStore.Proofs.Query.Clauses
import EntityStore.Proofs.Query.Lexer

/-! Texts are tokens exactly when they are written from them, and every other text stops the reader
at a quote that is never closed or at a character that no token starts with. -/
namespace EntityStore

/-- A text that is written from tokens that can be read. -/
structure TokenText (tokens : List Token.At) (text : List Char) : Prop where
  renders : Renders 0 tokens text
  wellFormed : ∀ a ∈ tokens, a.token.WellFormed

/-- A character that stands between quotes only. -/
def Lexer.Foreign (c : Char) : Prop :=
  Text.isBlank c = false ∧ c ≠ '(' ∧ c ≠ ')' ∧ isQuote c = false ∧ isOpChar c = false ∧
    isWordChar c = false

/-- Why a text is no tokens. After what is written from some tokens there is a quote that starts
another one and is never closed, since each one after it is doubled, or there is a character that
stands between quotes only. -/
inductive Stops : List Char → SyntaxError → Prop
  | unclosed {tokens : List Token.At} {text : List Char} {quote : Char}
      (htext : TokenText tokens text) (hquote : Lexer.isQuote quote = true)
      (hsep : ∀ c ∈ text.getLast?, fuses c quote = false) (cs : List Char) :
      Stops (text ++ quote :: cs.flatMap (doubled quote))
        (.unterminatedString (String.ofList (quote :: cs.flatMap (doubled quote))))
  | foreign {tokens : List Token.At} {text : List Char} {c : Char} (htext : TokenText tokens text)
      (hc : Lexer.Foreign c) (rest : List Char) :
      Stops (text ++ c :: rest) (.unexpectedToken (String.singleton c))

section Append

variable {c : Char} {cs gap rest text : List Char} {t : Token} {tokens more : List Token.At}
  {place : Nat}

theorem Renders.after_gap (h : Renders (place + Text.byteSize gap) tokens text)
    (hgap : Text.IsBlank gap) : Renders place tokens (gap ++ text) := by
  generalize hstart : place + Text.byteSize gap = start at h
  cases h with
  | nil hgap' => exact .nil (List.forall_mem_append.mpr ⟨hgap, hgap'⟩)
  | @cons _ gap' cs rest t ts hgap' ht hsep hrest =>
    have hplace : start + Text.byteSize gap' = place + Text.byteSize (gap ++ gap') := by
      rw [Text.byteSize_append, ← Nat.add_assoc, hstart]
    rw [hplace] at hrest ⊢
    rw [← List.append_assoc]
    exact .cons (List.forall_mem_append.mpr ⟨hgap, hgap'⟩) ht hsep hrest

theorem Renders.append (h : Renders place tokens text)
    (hmore : Renders (place + Text.byteSize text) more rest)
    (hsep : ∀ c ∈ text.getLast?, ∀ d ∈ rest.head?, fuses c d = false) :
    Renders place (tokens ++ more) (text ++ rest) := by
  induction h with
  | nil hgap => exact hmore.after_gap hgap
  | @cons place gap cs text t ts hgap ht hapart _ ih =>
    have hplace : place + Text.byteSize (gap ++ (cs ++ text)) =
        place + Text.byteSize gap + Text.byteSize cs + Text.byteSize text := by
      simp only [Text.byteSize_append, Nat.add_assoc]
    rw [hplace] at hmore
    rw [List.append_assoc, List.append_assoc]
    refine .cons hgap ht (Lexer.apart_append hapart fun htext c hc => ?_)
      (ih hmore fun c hc => ?_)
    · exact hsep c (by simp [htext, Option.mem_def.mp hc])
    · exact hsep c (by simp [Option.mem_def.mp hc])

theorem TokenText.nil : TokenText [] [] where
  renders := .nil .nil
  wellFormed := nofun

theorem TokenText.blank (h : TokenText tokens text) (hc : Text.isBlank c = true) :
    TokenText tokens (text ++ [c]) := by
  have hgap : Text.IsBlank [c] := List.forall_mem_singleton.mpr hc
  have hrenders := h.renders.append (.nil hgap) fun d _ e he =>
    Option.mem_some.mp he ▸ Lexer.fuses_blank hc d
  rw [List.append_nil] at hrenders
  exact ⟨hrenders, h.wellFormed⟩

/-- One more token, which does not go on with what stands before it. -/
theorem TokenText.token (h : TokenText tokens text) (ht : t.Spelled cs) (hwell : t.WellFormed)
    (hsep : ∀ c ∈ text.getLast?, ∀ d ∈ cs.head?, fuses c d = false) :
    TokenText (tokens ++ [⟨t, Text.byteSize text⟩]) (text ++ cs) := by
  have hend : ∀ c ∈ cs.getLast?, ∀ d ∈ [].head?, fuses c d = false := fun _ _ => nofun
  have hlast : Renders (0 + Text.byteSize text) [⟨t, 0 + Text.byteSize text⟩] ([] ++ (cs ++ [])) :=
    .cons .nil ht hend (.nil .nil)
  rw [Nat.zero_add, List.nil_append, List.append_nil] at hlast
  refine ⟨h.renders.append (by rwa [Nat.zero_add]) hsep, ?_⟩
  rw [List.forall_mem_append, List.forall_mem_singleton]
  exact ⟨h.wellFormed, hwell⟩

end Append

namespace Lexer

variable {c : Char} {cs text : List Char} {done : List Token.At} {s : State} {place : Nat}

/-- What a state has read: the text of its tokens, and the part of the next one that it holds. -/
inductive Scanned : State → List Char → Prop
  | between {done : List Token.At} {text : List Char} (start : Nat)
      (htext : TokenText done.reverse text) (hend : ∀ c ∈ text.getLast?, ∀ d, fuses c d = false) :
      Scanned ⟨done, .none, start⟩ text
  | lasts {p : Char → Bool} {pending : List Char → Pending} {token : List Char → Token}
      {done : List Token.At} {text chars : List Char} (hp : Lasts p pending token)
      (htext : TokenText done.reverse text) (hne : chars ≠ []) (hchars : ∀ c ∈ chars, p c = true)
      (hsep : ∀ c ∈ text.getLast?, ∀ d ∈ chars.getLast?, fuses c d = false) :
      Scanned ⟨done, pending chars, Text.byteSize text⟩ (text ++ chars.reverse)
  | quoted {quote : Char} {done : List Token.At} {text : List Char}
      (htext : TokenText done.reverse text) (hquote : isQuote quote = true)
      (hsep : ∀ c ∈ text.getLast?, fuses c quote = false) (chars : List Char) :
      Scanned ⟨done, .quoted quote chars, Text.byteSize text⟩
        (text ++ quote :: chars.reverse.flatMap (doubled quote))
  | quoteSeen {quote : Char} {done : List Token.At} {text : List Char}
      (htext : TokenText done.reverse text) (hquote : isQuote quote = true)
      (hsep : ∀ c ∈ text.getLast?, fuses c quote = false) (chars : List Char) :
      Scanned ⟨done, .quoteSeen quote chars, Text.byteSize text⟩
        (text ++ quote :: (chars.reverse.flatMap (doubled quote) ++ [quote]))

/-- Between tokens a text is read as far as a character that no token starts with. -/
theorem begin_scanned (htext : TokenText done.reverse text)
    (hsep : ∀ l ∈ text.getLast?, fuses l c = false) :
    (∃ t, begin done (Text.byteSize text) c = .ok t ∧ Scanned t (text ++ [c])) ∨
      (begin done (Text.byteSize text) c = .error (.unexpectedToken (String.singleton c)) ∧
        Foreign c) := by
  have hsep' (cs : List Char) : ∀ l ∈ text.getLast?, ∀ d ∈ (c :: cs).head?, fuses l d = false :=
    fun l hl d hd => Option.mem_some.mp hd ▸ hsep l hl
  have hlast (hc : isWordChar c = false ∧ isOpChar c = false ∧ isQuote c = false) :
      ∀ l ∈ (text ++ [c]).getLast?, ∀ d, fuses l d = false := by
    rw [List.getLast?_concat]
    rintro l hl
    exact Option.mem_some.mp hl ▸ classless_fuses hc
  by_cases hblank : Text.isBlank c = true
  · exact .inl ⟨_, begin_blank hblank, .between _ (htext.blank hblank)
      (hlast (classes_of_isBlank hblank))⟩
  by_cases hleft : c = '('
  · subst hleft
    have hread := htext.token .leftParen trivial (hsep' [])
    rw [← List.reverse_cons] at hread
    exact .inl ⟨_, rfl, .between _ hread (hlast ⟨rfl, rfl, rfl⟩)⟩
  by_cases hright : c = ')'
  · subst hright
    have hread := htext.token .rightParen trivial (hsep' [])
    rw [← List.reverse_cons] at hread
    exact .inl ⟨_, rfl, .between _ hread (hlast ⟨rfl, rfl, rfl⟩)⟩
  by_cases hquote : isQuote c = true
  · exact .inl ⟨_, begin_quote hquote, .quoted htext hquote hsep []⟩
  have hlasts {p : Char → Bool} {pending : List Char → Pending} {token : List Char → Token}
      (hp : Lasts p pending token) (hc : p c = true) :
      Scanned ⟨done, pending [c], Text.byteSize text⟩ (text ++ [c]) :=
    .lasts hp htext (List.cons_ne_nil c []) (List.forall_mem_singleton.mpr hc) (hsep' [])
  by_cases hop : isOpChar c = true
  · exact .inl ⟨_, begin_op hop, hlasts lasts_op hop⟩
  by_cases hword : isWordChar c = true
  · exact .inl ⟨_, begin_word hword, hlasts lasts_word hword⟩
  rw [Bool.not_eq_true] at hblank hquote hop hword
  have hforeign : Foreign c := ⟨hblank, hleft, hright, hquote, hop, hword⟩
  refine .inr ⟨?_, hforeign⟩
  simp only [begin, hblank, hleft, hright, hquote, hop, hword, Bool.false_eq_true, if_false]

/-- What has been read is the text of tokens, unless a quote is open. -/
theorem Scanned.flush (h : Scanned s text)
    (hclosed : ∀ quote chars, s.pending ≠ .quoted quote chars) :
    TokenText s.flush.reverse text := by
  cases h with
  | between _ htext _ => exact htext
  | @lasts _ _ token _ _ chars hp htext hne hchars hsep =>
    have hwell : (token chars.reverse).WellFormed :=
      hp.wellFormed (by simpa using hne) (by simpa using hchars)
    rw [hp.flush, List.reverse_cons]
    exact htext.token (hp.spelled _) hwell (by rwa [List.head?_reverse])
  | quoted _ _ _ chars => exact absurd rfl (hclosed _ chars)
  | @quoteSeen quote _ _ htext hquote hsep chars =>
    have hsep' (cs : List Char) :
        ∀ l ∈ List.getLast? _, ∀ d ∈ (quote :: cs).head?, fuses l d = false :=
      fun l hl d hd => Option.mem_some.mp hd ▸ hsep l hl
    rw [State.flush, List.reverse_cons]
    exact htext.token (.quoted hquote _) trivial (hsep' _)

/-- Where a quote is open, the characters after it are held as they were before doubling. -/
theorem Scanned.eq_quoted {quote : Char} {chars : List Char} (h : Scanned s text)
    (hpending : s.pending = .quoted quote chars) :
    ∃ done pre, s = ⟨done, .quoted quote chars, Text.byteSize pre⟩ ∧ TokenText done.reverse pre ∧
      isQuote quote = true ∧ (∀ l ∈ pre.getLast?, fuses l quote = false) ∧
      text = pre ++ quote :: chars.reverse.flatMap (doubled quote) := by
  cases h with
  | between | quoteSeen => cases hpending
  | lasts hp => exact absurd hpending hp.closed
  | @quoted _ done pre htext hquote hsep _ =>
    cases hpending
    exact ⟨done, pre, rfl, htext, hquote, hsep, rfl⟩

/-- A character that does not go on with what has been read starts a token, or stops the reader. -/
theorem Scanned.begin (h : Scanned s text)
    (hclosed : ∀ quote chars, s.pending ≠ .quoted quote chars)
    (hsep : ∀ l ∈ text.getLast?, fuses l c = false)
    (hstep : step s (Text.byteSize text) c = begin s.flush (Text.byteSize text) c) :
    (∃ t, step s (Text.byteSize text) c = .ok t ∧ Scanned t (text ++ [c])) ∨
      (step s (Text.byteSize text) c = .error (.unexpectedToken (String.singleton c)) ∧
        ∀ rest, Stops (text ++ c :: rest) (.unexpectedToken (String.singleton c))) := by
  have htext := h.flush hclosed
  rw [hstep]
  obtain hok | ⟨herror, hforeign⟩ := begin_scanned htext hsep
  · exact .inl hok
  · exact .inr ⟨herror, .foreign htext hforeign⟩

theorem Scanned.step (h : Scanned s text) (c : Char) :
    (∃ t, step s (Text.byteSize text) c = .ok t ∧ Scanned t (text ++ [c])) ∨
      (step s (Text.byteSize text) c = .error (.unexpectedToken (String.singleton c)) ∧
        ∀ rest, Stops (text ++ c :: rest) (.unexpectedToken (String.singleton c))) := by
  have hscanned := h
  cases h with
  | between start htext hend =>
    exact hscanned.begin (fun _ _ => Pending.noConfusion) (fun l hl => hend l hl c) rfl
  | @lasts p pending token done text chars hp htext hne hchars hsep =>
    by_cases hc : p c = true
    · have hgrown : Scanned _ (text ++ (c :: chars).reverse) :=
        .lasts hp htext (List.cons_ne_nil c chars) (List.forall_mem_cons.mpr ⟨hc, hchars⟩)
          (by rwa [List.getLast?_cons_of_ne_nil hne])
      rw [List.reverse_cons, ← List.append_assoc] at hgrown
      exact .inl ⟨_, hp.next hc, hgrown⟩
    · rw [Bool.not_eq_true] at hc
      refine hscanned.begin (fun _ _ => hp.closed) (fun l hl => ?_) ?_
      · rw [List.getLast?_append, List.getLast?_reverse] at hl
        have hl' : l ∈ chars := by
          cases chars with
          | nil => exact absurd rfl hne
          | cons d ds => exact Option.mem_some.mp hl ▸ List.mem_cons_self
        rw [hp.fuses (hchars l hl'), hc]
      · rw [hp.stop hc, hp.flush]
  | @quoted quote done text htext hquote hsep chars =>
    by_cases hc : c = quote
    · subst hc
      have hseen := Scanned.quoteSeen htext hquote hsep chars
      rw [← List.cons_append, ← List.append_assoc] at hseen
      exact .inl ⟨_, if_pos rfl, hseen⟩
    · have hgrown := Scanned.quoted htext hquote hsep (c :: chars)
      rw [List.reverse_cons, List.flatMap_append, List.flatMap_singleton, doubled, if_neg hc,
        ← List.cons_append, ← List.append_assoc] at hgrown
      exact .inl ⟨_, if_neg hc, hgrown⟩
  | @quoteSeen quote done text htext hquote hsep chars =>
    by_cases hc : c = quote
    · subst hc
      have hgrown := Scanned.quoted htext hquote hsep (c :: chars)
      rw [List.reverse_cons, List.flatMap_append, List.flatMap_singleton, doubled, if_pos rfl]
        at hgrown
      refine .inl ⟨_, if_pos rfl, ?_⟩
      rwa [List.append_assoc, List.cons_append, List.append_assoc]
    · refine hscanned.begin (fun _ _ => Pending.noConfusion) (fun l hl => ?_) (if_neg hc)
      rw [← List.cons_append, ← List.append_assoc, List.getLast?_concat] at hl
      rw [← Option.mem_some.mp hl, quote_fuses hquote, beq_eq_false_iff_ne]
      exact Ne.symm hc

/-- A text is read to its end, or it stops the reader. -/
theorem Scanned.run (h : Scanned s text) (rest : List Char) :
    (∃ t, run s (Text.byteSize text) rest = .ok t ∧ Scanned t (text ++ rest)) ∨
      ∃ e, run s (Text.byteSize text) rest = .error e ∧ Stops (text ++ rest) e := by
  induction rest generalizing s text with
  | nil => exact .inl ⟨s, rfl, (List.append_nil text).symm ▸ h⟩
  | cons c rest ih =>
    have hplace : Text.byteSize (text ++ [c]) = Text.byteSize text + c.utf8Size := by
      rw [Text.byteSize_append]
      rfl
    rw [run_cons, ← hplace]
    obtain ⟨t, ht, hscanned⟩ | ⟨herror, hstops⟩ := h.step c
    · rw [ht, List.append_cons text c rest]
      exact ih hscanned
    · rw [herror]
      exact .inr ⟨_, rfl, hstops rest⟩

end Lexer

section Tokenize

variable {tokens : List Token.At} {text : List Char} {e : SyntaxError}

/-- Where the reader ends within quotes, the text from the opening one is at fault. -/
theorem tokenize_of_run_quoted {quote : Char} {chars rest : List Char} {done : List Token.At}
    (hrun : Lexer.run .initial 0 (text ++ rest) =
      .ok ⟨done, .quoted quote chars, Text.byteSize text⟩) :
    tokenize (text ++ rest) = .error (.unterminatedString (String.ofList rest)) := by
  rw [tokenize, hrun]
  show (cut _ _ _ >>= fun rest => _) = _
  rw [Query.cut_suffix]
  rfl

theorem tokenize_of_run {s : Lexer.State} (hrun : Lexer.run .initial 0 text = .ok s)
    (hclosed : ∀ quote chars, s.pending ≠ .quoted quote chars) :
    tokenize text = .ok s.flush.reverse := by
  rw [tokenize, hrun]
  dsimp only [bind, Except.bind]
  split
  next quote chars hpending => exact absurd hpending (hclosed quote chars)
  next => rfl

theorem tokenize_of_run_error (hrun : Lexer.run .initial 0 text = .error e) :
    tokenize text = .error e := by
  rw [tokenize, hrun]
  rfl

theorem tokenize_cases (text : List Char) :
    (∃ tokens, tokenize text = .ok tokens ∧ TokenText tokens text) ∨
      ∃ e, tokenize text = .error e ∧ Stops text e := by
  have hinitial : Lexer.Scanned .initial [] := .between 0 .nil fun _ => nofun
  obtain ⟨s, hrun, hscanned⟩ | ⟨e, hrun, hstops⟩ := hinitial.run text
  · by_cases hclosed : ∀ quote chars, s.pending ≠ .quoted quote chars
    · exact .inl ⟨_, tokenize_of_run hrun hclosed, hscanned.flush hclosed⟩
    · push Not at hclosed
      obtain ⟨quote, chars, hpending⟩ := hclosed
      obtain ⟨done, pre, rfl, htext, hquote, hsep, rfl⟩ := hscanned.eq_quoted hpending
      exact .inr ⟨_, tokenize_of_run_quoted hrun, .unclosed htext hquote hsep _⟩
  · exact .inr ⟨e, tokenize_of_run_error hrun, hstops⟩

/-- The reader gets through the text of tokens, up to a character that does not go on with it. -/
theorem TokenText.run {after : List Char} (h : TokenText tokens text)
    (hafter : ∀ c ∈ text.getLast?, ∀ d ∈ after.head?, fuses c d = false) :
    ∃ s, Lexer.run .initial 0 text = .ok s ∧ Lexer.Ready s tokens.reverse after := by
  obtain ⟨s, hrun, hready⟩ := Lexer.run_renders h.renders h.wellFormed hafter (.of_none [] 0 _)
  rw [List.append_nil] at hready
  exact ⟨s, hrun, hready⟩

theorem Lexer.begin_foreign {c : Char} (hc : Lexer.Foreign c) (done : List Token.At) (place : Nat) :
    Lexer.begin done place c = .error (.unexpectedToken (String.singleton c)) := by
  obtain ⟨hblank, hleft, hright, hquote, hop, hword⟩ := hc
  simp only [Lexer.begin, hblank, hleft, hright, hquote, hop, hword, Bool.false_eq_true, if_false]

theorem tokenize_of_stops (h : Stops text e) : tokenize text = .error e := by
  cases h with
  | @unclosed tokens text quote htext hquote hsep cs =>
    have hafter : ∀ c ∈ text.getLast?, ∀ d ∈ (quote :: cs.flatMap (doubled quote)).head?,
        fuses c d = false := fun c hc d hd => Option.mem_some.mp hd ▸ hsep c hc
    obtain ⟨s, hrun, hready⟩ := htext.run hafter
    have hquoted : Lexer.run .initial 0 (text ++ quote :: cs.flatMap (doubled quote)) =
        .ok ⟨tokens.reverse, .quoted quote (cs.reverse ++ []), Text.byteSize text⟩ := by
      rw [Lexer.run_append, hrun, Except.bind, Nat.zero_add,
        hready.run_cons _ (Lexer.begin_quote hquote), Lexer.run_doubled]
    exact tokenize_of_run_quoted hquoted
  | @foreign tokens text c htext hc rest =>
    have hafter : ∀ l ∈ text.getLast?, ∀ d ∈ (c :: rest).head?, fuses l d = false :=
      fun l _ d hd => Option.mem_some.mp hd ▸
        Lexer.fuses_of_classless ⟨hc.2.2.2.2.2, hc.2.2.2.2.1, hc.2.2.2.1⟩ l
    obtain ⟨s, hrun, hready⟩ := htext.run hafter
    refine tokenize_of_run_error ?_
    rw [Lexer.run_append, hrun, Except.bind, Lexer.run_cons, hready.step c rfl,
      Lexer.begin_foreign hc]
    rfl

/-- A text is read as the tokens that it is written from, each with its start, and it is refused for
the first thing in it that is no token. -/
theorem tokenize_eq_iff (text : List Char) :
    (∀ tokens, tokenize text = .ok tokens ↔
      Renders 0 tokens text ∧ ∀ a ∈ tokens, a.token.WellFormed) ∧
    ∀ e, tokenize text = .error e ↔ Stops text e := by
  have hcases := tokenize_cases text
  refine ⟨fun tokens => ⟨fun h => ?_, fun ⟨hrenders, hwell⟩ => tokenize_of_renders hrenders hwell⟩,
    fun e => ⟨fun h => ?_, tokenize_of_stops⟩⟩
  · obtain ⟨tokens', htokens, htext⟩ | ⟨e, he, _⟩ := hcases
    · cases htokens.symm.trans h
      exact ⟨htext.renders, htext.wellFormed⟩
    · cases he.symm.trans h
  · obtain ⟨tokens, htokens, _⟩ | ⟨e', he, hstops⟩ := hcases
    · cases htokens.symm.trans h
    · cases he.symm.trans h
      exact hstops

/-- Quotes within quotes, and tokens that touch. -/
example : tokenize "x='it''s'\"\"(".toList =
    .ok [⟨.word ['x'], 0⟩, ⟨.op ['='], 1⟩, ⟨.quoted ['i', 't', '\'', 's'], 2⟩, ⟨.quoted [], 9⟩,
      ⟨.leftParen, 11⟩] := by
  decide +kernel

end Tokenize

end EntityStore
