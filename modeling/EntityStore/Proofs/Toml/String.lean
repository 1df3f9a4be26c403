import EntityStore.Toml.Printer
import EntityStore.Toml.Reader
import Mathlib.Tactic.SplitIfs

/-! TOML strings are read back from whichever of their forms they are written in. -/
namespace EntityStore.Toml

open Reader

variable {root : Items} {header : List String} {outer : List Open} {token : Token} {q : Quote}
  {block : Bool} {chars cs ds : List Char} {c : Char} {k n : Nat} {r r' : Reader}

namespace Reader

theorem run_cons (r : Reader) (c : Char) (cs : List Char) :
    r.run (c :: cs) = (r.step c).bind (·.run cs) := rfl

theorem run_cons_of_step (h : r.step c = some r') (cs : List Char) :
    r.run (c :: cs) = r'.run cs := by
  rw [run_cons, h]
  rfl

theorem run_singleton (r : Reader) (c : Char) : r.run [c] = r.step c :=
  Option.bind_fun_some (r.step c)

section Text

/-- What a block holds: its characters, last first, and the quotes behind them. -/
def held (q : Quote) (chars : List Char) (k : Nat) : List Char := List.replicate k q.char ++ chars

/-- A character stands for itself on one line. -/
theorem step_line (hquote : c ≠ q.char) (hslash : ¬(q = .double ∧ c = '\\'))
    (htext : isTextChar c = true) :
    step ⟨root, header, outer, .value, .line q chars⟩ c =
      some ⟨root, header, outer, .value, .line q (c :: chars)⟩ := by
  simp only [step, stepLine, if_neg hquote, if_neg hslash, htext, if_true]

/-- A character stands for itself in a block, after the quotes before it. -/
theorem step_block (hk : k ≤ 2) (hquote : c ≠ q.char) (hslash : ¬(q = .double ∧ c = '\\'))
    (htext : c = '\n' ∨ isTextChar c = true) :
    step ⟨root, header, outer, .value, .block q chars k⟩ c =
      some ⟨root, header, outer, .value, .block q (c :: held q chars k) 0⟩ := by
  have hlt : k < 3 := by omega
  simp only [step, stepBlock, if_neg hquote, if_pos hlt, held, stepBlockText, if_neg hslash,
    if_pos htext]

theorem step_quote (hk : k < 5) :
    step ⟨root, header, outer, .value, .block q chars k⟩ q.char =
      some ⟨root, header, outer, .value, .block q chars (k + 1)⟩ := by
  simp only [step, stepBlock, if_true, if_pos hk]

/-- Quotes in a block that something else follows are part of the text. -/
theorem run_block_settle (hk : k ≤ 2) (hc : c ≠ q.char) (cs : List Char) :
    run ⟨root, header, outer, .value, .block q chars k⟩ (c :: cs) =
      run ⟨root, header, outer, .value, .block q (held q chars k) 0⟩ (c :: cs) := by
  have hlt : k < 3 := by omega
  simp only [run_cons, step, stepBlock, if_neg hc, if_pos hlt]
  rfl

end Text

section Escape

theorem hexDigit?_upper : ∀ d < 16, Text.hexDigit? (Nat.digitChar d).toUpper = some d := by
  decide

theorem step_hex {left code d : Nat} (hd : d < 16) :
    step ⟨root, header, outer, .value, .hex block chars left code⟩ (Nat.digitChar d).toUpper =
      if left = 1 then (Text.charOf? (16 * code + d)).map fun d =>
        ⟨root, header, outer, .value, resumed block (d :: chars)⟩
      else some ⟨root, header, outer, .value, .hex block chars (left - 1) (16 * code + d)⟩ := by
  simp only [step, hexDigit?_upper d hd, Option.bind_some]

/-- Four digits are taken as the character that they denote. -/
theorem run_hexUnit (hn : n < 65536) :
    run ⟨root, header, outer, .value, .hex block chars 4 0⟩
        ((Text.hexUnit n).map Char.toUpper) =
      (Text.charOf? n).map fun d =>
        ⟨root, header, outer, .value, resumed block (d :: chars)⟩ := by
  have hvalue : 16 * (16 * (16 * (16 * 0 + n / 4096 % 16) + n / 256 % 16) + n / 16 % 16) + n % 16 =
      n := by omega
  have hmod (m : Nat) : m % 16 < 16 := Nat.mod_lt m (by decide)
  show run _ [(Nat.digitChar (n / 4096 % 16)).toUpper, (Nat.digitChar (n / 256 % 16)).toUpper,
    (Nat.digitChar (n / 16 % 16)).toUpper, (Nat.digitChar (n % 16)).toUpper] = _
  rw [run_cons_of_step (step_hex (hmod _)), run_cons_of_step (step_hex (hmod _)),
    run_cons_of_step (step_hex (hmod _)), run_singleton, step_hex (hmod _), hvalue]
  rfl

theorem step_backslash (root : Items) (header : List String) (outer : List Open) (block : Bool)
    (chars : List Char) :
    step ⟨root, header, outer, .value, resumed block chars⟩ '\\' =
      some ⟨root, header, outer, .value, .escape block chars⟩ := by
  cases block <;> rfl

theorem step_escape {letter : Char} (h : escaped? letter = some c) :
    step ⟨root, header, outer, .value, .escape block chars⟩ letter =
      some ⟨root, header, outer, .value, resumed block (c :: chars)⟩ := by
  unfold escaped? at h
  split at h <;> cases h <;> cases block <;> rfl

theorem run_letter {letter : Char} (h : escaped? letter = some c) :
    run ⟨root, header, outer, .value, resumed block chars⟩ ['\\', letter] =
      some ⟨root, header, outer, .value, resumed block (c :: chars)⟩ := by
  rw [run_cons_of_step (step_backslash _ _ _ _ _), run_singleton, step_escape h]

/-- A character other than a quote is read back from its escape. -/
theorem run_escape (hquote : c ≠ '"') :
    run ⟨root, header, outer, .value, resumed block chars⟩ (escape c) =
      some ⟨root, header, outer, .value, resumed block (c :: chars)⟩ := by
  unfold escape
  split_ifs with hslash h₁ h₂ h₃ h₄ h₅ hcontrol
  · rw [hslash]
    exact run_letter rfl
  · rw [h₁]
    exact run_letter rfl
  · rw [h₂]
    exact run_letter rfl
  · rw [h₃]
    exact run_letter rfl
  · rw [h₄]
    exact run_letter rfl
  · rw [h₅]
    exact run_letter rfl
  · have hmark : step ⟨root, header, outer, .value, .escape block chars⟩ 'u' =
        some ⟨root, header, outer, .value, .hex block chars 4 0⟩ := rfl
    have hchar : Text.charOf? c.toNat = some c := by
      rw [Text.charOf?, if_pos (.inl (by omega)), Char.ofNat_toNat]
    rw [run_cons_of_step (step_backslash _ _ _ _ _), run_cons_of_step hmark,
      run_hexUnit (by omega), hchar]
    rfl
  · have htext : isTextChar c = true := by
      simp only [isTextChar, Bool.or_eq_true, Bool.and_eq_true, decide_eq_true_eq, bne_iff_ne]
      omega
    have hnot : ¬(Quote.double = .double ∧ c = '\\') := fun h => hslash h.2
    rw [run_singleton]
    cases block with
    | false => exact step_line hquote hnot htext
    | true => exact step_block (Nat.zero_le 2) hquote hnot (.inr htext)

/-- An escape starts with a backslash, or it is the character itself. -/
theorem exists_cons_escape (c : Char) : ∃ d ds, escape c = d :: ds ∧ (d = '\\' ∨ d = c) := by
  unfold escape
  split_ifs
  all_goals first | exact ⟨_, _, rfl, .inl rfl⟩ | exact ⟨_, _, rfl, .inr rfl⟩

theorem exists_cons_escape_of_ne {e : Char} (hslash : e ≠ '\\') (hc : c ≠ e) :
    ∃ d ds, escape c = d :: ds ∧ d ≠ e := by
  obtain ⟨d, ds, hescape, rfl | rfl⟩ := exists_cons_escape c
  · exact ⟨_, ds, hescape, hslash.symm⟩
  · exact ⟨_, ds, hescape, hc⟩

end Escape

section Bodies

/-- Between double quotes on one line, a text is read back from its escapes. -/
theorem run_escapeAll_line :
    run ⟨root, header, outer, .value, .line .double chars⟩ (escapeAll false n cs) =
      some ⟨root, header, outer, .value, .line .double (cs.reverse ++ chars)⟩ := by
  induction cs generalizing chars n with
  | nil => rfl
  | cons c cs ih =>
    have hfirst : ∃ xs, escapeAll false n (c :: cs) = xs ++ escapeAll false 0 cs ∧
        run ⟨root, header, outer, .value, resumed false chars⟩ xs =
          some ⟨root, header, outer, .value, resumed false (c :: chars)⟩ := by
      by_cases hc : c = '"'
      · subst hc
        exact ⟨['\\', '"'], rfl, run_letter rfl⟩
      · refine ⟨escape c, ?_, run_escape hc⟩
        rw [escapeAll, if_neg hc]
        rfl
    obtain ⟨xs, hxs, hrun⟩ := hfirst
    have hrest : run ⟨root, header, outer, .value, resumed false (c :: chars)⟩
        (escapeAll false 0 cs) = _ := ih
    rw [hxs, run_append]
    show (run ⟨root, header, outer, .value, resumed false chars⟩ xs).bind _ = _
    rw [hrun, Option.bind_some, hrest, List.reverse_cons, List.append_assoc,
      List.singleton_append]

/-- Between single quotes on one line, each character of a text stands for itself. -/
theorem run_literal_line (h : ∀ c ∈ cs, c ≠ '\'' ∧ isTextChar c = true) :
    run ⟨root, header, outer, .value, .line .single chars⟩ cs =
      some ⟨root, header, outer, .value, .line .single (cs.reverse ++ chars)⟩ := by
  induction cs generalizing chars with
  | nil => rfl
  | cons c cs ih =>
    obtain ⟨⟨hquote, htext⟩, hcs⟩ := List.forall_mem_cons.mp h
    have hnot : ¬(Quote.single = .double ∧ c = '\\') := fun h => Quote.noConfusion h.1
    have hstep : step ⟨root, header, outer, .value, .line .single chars⟩ c =
        some ⟨root, header, outer, .value, .line .single (c :: chars)⟩ :=
      step_line hquote hnot htext
    rw [run_cons_of_step hstep, ih hcs, List.reverse_cons, List.append_assoc,
      List.singleton_append]

/-- A text in a block is read behind what the block holds, and so that at most two quotes at its end
are still apart. -/
def BlockReads (root : Items) (header : List String) (outer : List Open) (q : Quote)
    (chars : List Char) (k : Nat) (written text : List Char) : Prop :=
  ∃ chars' k', k' ≤ 2 ∧ held q chars' k' = text.reverse ++ held q chars k ∧
    run ⟨root, header, outer, .value, .block q chars k⟩ written =
      some ⟨root, header, outer, .value, .block q chars' k'⟩

theorem BlockReads.nil (hk : k ≤ 2) : BlockReads root header outer q chars k [] [] :=
  ⟨chars, k, hk, rfl, rfl⟩

theorem BlockReads.quote (hk : k < 2)
    (h : BlockReads root header outer q chars (k + 1) ds cs) :
    BlockReads root header outer q chars k (q.char :: ds) (q.char :: cs) := by
  obtain ⟨chars', k', hk', hheld, hrun⟩ := h
  refine ⟨chars', k', hk', ?_, ?_⟩
  · rw [hheld, List.reverse_cons, List.append_assoc]
    rfl
  · rw [run_cons_of_step (step_quote (by omega)), hrun]

/-- Anything but a quote comes behind the quotes before it. -/
theorem BlockReads.append (written : List Char)
    (hrun : run ⟨root, header, outer, .value, .block q chars k⟩ written =
      some ⟨root, header, outer, .value, .block q (c :: held q chars k) 0⟩)
    (h : BlockReads root header outer q (c :: held q chars k) 0 ds cs) :
    BlockReads root header outer q chars k (written ++ ds) (c :: cs) := by
  obtain ⟨chars', k', hk', hheld, hrest⟩ := h
  refine ⟨chars', k', hk', ?_, ?_⟩
  · rw [hheld, List.reverse_cons, List.append_assoc]
    rfl
  · rw [run_append, hrun, Option.bind_some, hrest]

/-- In a block of double quotes, a text is read back from its escapes. -/
theorem blockReads_escapeAll (hk : k ≤ 2) :
    BlockReads root header outer .double chars k (escapeAll true k cs) cs := by
  induction cs generalizing chars k with
  | nil => exact .nil hk
  | cons c cs ih =>
    rw [escapeAll]
    split_ifs with hquote hrun hline
    · rw [hquote]
      have hfew : k < 2 := by simpa using hrun
      exact .quote hfew (ih (by omega))
    · rw [hquote]
      refine .append ['\\', '"'] ?_ (ih (Nat.zero_le 2))
      have hletter : run ⟨root, header, outer, .value, resumed true (held .double chars k)⟩
          ['\\', '"'] =
            some ⟨root, header, outer, .value, resumed true ('"' :: held .double chars k)⟩ :=
        run_letter rfl
      rw [run_block_settle hk (by decide)]
      exact hletter
    · have hbreak : c = '\n' := by simpa using hline
      subst hbreak
      refine .append ['\n'] ?_ (ih (Nat.zero_le 2))
      rw [run_singleton]
      exact step_block hk (by decide) (by decide) (.inl rfl)
    · refine .append (escape c) ?_ (ih (Nat.zero_le 2))
      obtain ⟨d, xs, hxs, hd⟩ := exists_cons_escape_of_ne (by decide) hquote
      replace hd : d ≠ Quote.double.char := hd
      have hescape : run ⟨root, header, outer, .value, resumed true (held .double chars k)⟩
          (escape c) =
            some ⟨root, header, outer, .value, resumed true (c :: held .double chars k)⟩ :=
        run_escape hquote
      rw [hxs] at hescape ⊢
      rw [run_block_settle hk hd]
      exact hescape

/-- In a block of single quotes, each character of a text stands for itself, where no three quotes
stand in a row. -/
theorem blockReads_literal (hk : k ≤ 2) (hruns : runsWithin '\'' 2 k cs = true)
    (h : ∀ c ∈ cs, c = '\n' ∨ isTextChar c = true) :
    BlockReads root header outer .single chars k cs cs := by
  induction cs generalizing chars k with
  | nil => exact .nil hk
  | cons c cs ih =>
    obtain ⟨hc, hcs⟩ := List.forall_mem_cons.mp h
    rw [runsWithin] at hruns
    split_ifs at hruns with hquote
    · obtain ⟨hlt, hruns⟩ := Bool.and_eq_true_iff.mp hruns
      have hfew : k < 2 := by simpa using hlt
      rw [hquote]
      exact .quote hfew (ih (by omega) hruns hcs)
    · refine .append [c] ?_ (ih (Nat.zero_le 2) hruns hcs)
      have hnot : ¬(Quote.single = .double ∧ c = '\\') := fun h => Quote.noConfusion h.1
      rw [run_singleton]
      exact step_block hk hquote hnot hc

end Bodies

section Strings

/-- The reader after a string value, at the end of its line. -/
def ended (root : Items) (header : List String) (outer : List Open) (cs : List Char) :
    Option Reader :=
  between ⟨root, header, outer, .after (.str (String.ofList cs)), .none⟩ '\n'

theorem run_lineString (hhead : ds.head? ≠ some q.char)
    (hrun : run ⟨root, header, outer, .value, .line q []⟩ ds =
      some ⟨root, header, outer, .value, .line q cs.reverse⟩) :
    run ⟨root, header, outer, .value, .none⟩ (q.char :: (ds ++ [q.char]) ++ ['\n']) =
      ended root header outer cs := by
  have hopen : step ⟨root, header, outer, .value, .none⟩ q.char =
      some ⟨root, header, outer, .value, .opening q false⟩ := by cases q <;> rfl
  have hclose : step ⟨root, header, outer, .value, .line q cs.reverse⟩ q.char =
      some ⟨root, header, outer, .after (.str (String.ofList cs)), .none⟩ := by
    simp only [step, stepLine, if_true, takeString, valueDue, List.reverse_reverse]
  rw [List.cons_append, run_cons_of_step hopen]
  cases ds with
  | nil =>
    have htoken : Token.line q [] = .line q cs.reverse := congrArg token (Option.some.inj hrun)
    have hnil : cs = [] := List.reverse_eq_nil_iff.mp (Token.line.inj htoken).2.symm
    have htwice : step ⟨root, header, outer, .value, .opening q false⟩ q.char =
        some ⟨root, header, outer, .value, .opening q true⟩ := by cases q <;> rfl
    rw [hnil, ended, String.ofList_nil]
    show run _ [q.char, '\n'] = _
    rw [run_cons_of_step htwice, run_singleton]
    cases q <;> rfl
  | cons d ds =>
    have hd : d ≠ q.char := fun heq => hhead (congrArg some heq)
    have hfirst (xs : List Char) : run ⟨root, header, outer, .value, .opening q false⟩ (d :: xs) =
        run ⟨root, header, outer, .value, .line q []⟩ (d :: xs) := by
      simp only [run_cons, step, if_neg hd]
      rfl
    rw [List.append_assoc, List.cons_append, hfirst, ← List.cons_append, run_append, hrun,
      Option.bind_some, List.singleton_append, run_cons_of_step hclose, run_singleton]
    rfl

/-- Three quotes end a block, and the quotes before them are the last of its text. -/
theorem run_endBlock (hk : k ≤ 2) (hheld : held q chars k = cs.reverse) :
    run ⟨root, header, outer, .value, .block q chars k⟩
        (List.replicate 3 q.char ++ ['\n']) = ended root header outer cs := by
  have hne : '\n' ≠ q.char := by cases q <;> decide
  have hlast : step ⟨root, header, outer, .value, .block q chars (k + 3)⟩ '\n' =
      ended root header outer cs := by
    have htext : (held q chars k).reverse = cs := by rw [hheld, List.reverse_reverse]
    simp only [step, stepBlock, if_neg hne, Nat.add_sub_cancel]
    rw [if_neg (by omega)]
    show (takeString _ (String.ofList (held q chars k).reverse)).bind _ = _
    rw [htext]
    rfl
  show run _ [q.char, q.char, q.char, '\n'] = _
  rw [run_cons_of_step (step_quote (by omega)), run_cons_of_step (step_quote (by omega)),
    run_cons_of_step (step_quote (by omega)), run_singleton, hlast]

theorem run_blockStart (hc : c ≠ '\n') (xs : List Char) :
    run ⟨root, header, outer, .value, .blockStart q⟩ (c :: xs) =
      run ⟨root, header, outer, .value, .block q [] 0⟩ (c :: xs) := by
  simp only [run_cons, step, if_neg hc]
  rfl

theorem run_blockString (hhead : '\n' ∉ cs → ds.head? ≠ some '\n')
    (h : BlockReads root header outer q [] 0 ds cs) :
    run ⟨root, header, outer, .value, .none⟩
        (List.replicate 3 q.char ++ opening cs ++ ds ++ List.replicate 3 q.char ++ ['\n']) =
      ended root header outer cs := by
  obtain ⟨chars, k, hk, hheld, hrun⟩ := h
  have hopen (xs : List Char) : run ⟨root, header, outer, .value, .none⟩
      (List.replicate 3 q.char ++ xs) =
        run ⟨root, header, outer, .value, .blockStart q⟩ xs := by cases q <;> rfl
  have hbody : run ⟨root, header, outer, .value, .blockStart q⟩
      (opening cs ++ (ds ++ (List.replicate 3 q.char ++ ['\n']))) =
        run ⟨root, header, outer, .value, .block q [] 0⟩
          (ds ++ (List.replicate 3 q.char ++ ['\n'])) := by
    unfold opening
    split_ifs with hlines
    · rfl
    · have hnone : '\n' ∉ cs := by simpa using hlines
      cases ds with
      | nil => exact run_blockStart (by cases q <;> decide) _
      | cons d ds =>
        have hd : d ≠ '\n' := fun heq => hhead hnone (congrArg some heq)
        exact run_blockStart hd _
  have hends : held q chars k = cs.reverse := by
    rw [hheld]
    exact List.append_nil _
  simp only [List.append_assoc]
  rw [hopen, hbody, run_append, hrun, Option.bind_some, run_endBlock hk hends]

/-- A character that is no control character, or a line feed, stands for itself. -/
theorem isTextChar_of_not_isControl (h : isControl c = false) : c = '\n' ∨ isTextChar c = true := by
  by_cases hbreak : c = '\n'
  · exact .inl hbreak
  · refine .inr ?_
    simp only [isControl, Bool.or_eq_false_iff, Bool.and_eq_false_iff, decide_eq_false_iff_not,
      bne_eq_false_iff_eq, beq_eq_false_iff_ne] at h
    simp only [isTextChar, Bool.or_eq_true, beq_iff_eq, Bool.and_eq_true, decide_eq_true_eq,
      bne_iff_ne]
    obtain ⟨(hlow | htab) | hline, hdelete⟩ := h
    · exact .inr ⟨Nat.not_lt.mp hlow, hdelete⟩
    · exact .inl htab
    · exact absurd hline hbreak

theorem isTextChar_of_plain (hplain : (!cs.any isControl) = true) :
    ∀ c ∈ cs, c = '\n' ∨ isTextChar c = true := by
  intro c hc
  have hany : cs.any isControl = false := by simpa using hplain
  have hcontrol : isControl c = false := by simpa using List.any_eq_false.mp hany c hc
  exact isTextChar_of_not_isControl hcontrol

/-- A text in single quotes on one line has only characters that stand for themselves there. -/
theorem plain_of_literal (h : Form.of cs = .literal) :
    ∀ c ∈ cs, c ≠ '\'' ∧ isTextChar c = true := by
  unfold Form.of at h
  dsimp only at h
  split_ifs at h with h₁ h₂
  simp only [Bool.and_eq_true, Bool.not_eq_true', List.contains_eq_mem, decide_eq_false_iff_not]
    at h₂
  obtain ⟨⟨hplain, hlines⟩, hquote⟩ := h₂
  intro c hc
  refine ⟨fun heq => hquote (heq ▸ hc), ?_⟩
  have hplain' : (!cs.any isControl) = true := by rw [hplain]; rfl
  rcases isTextChar_of_plain hplain' c hc with rfl | htext
  · exact absurd hc hlines
  · exact htext

/-- A text in a block of single quotes has no three of them in a row. -/
theorem plain_of_literalBlock (h : Form.of cs = .literalBlock) :
    runsWithin '\'' 2 0 cs = true ∧ ∀ c ∈ cs, c = '\n' ∨ isTextChar c = true := by
  unfold Form.of at h
  dsimp only at h
  split_ifs at h with h₁ h₂ h₃ h₄
  obtain ⟨hplain, hruns⟩ := Bool.and_eq_true_iff.mp h₄
  exact ⟨hruns, isTextChar_of_plain hplain⟩

theorem head_escapeAll_line (n : Nat) (cs : List Char) :
    (escapeAll false n cs).head? ≠ some '"' := by
  cases cs with
  | nil => exact nofun
  | cons c cs =>
    rw [escapeAll]
    by_cases hquote : c = '"'
    · rw [if_pos hquote]
      exact nofun
    · obtain ⟨d, ds, hescape, hd⟩ := exists_cons_escape_of_ne (by decide) hquote
      rw [if_neg hquote, hescape]
      intro h
      exact hd (Option.some.inj h)

theorem head_escapeAll_block (n : Nat) (h : '\n' ∉ cs) :
    (escapeAll true n cs).head? ≠ some '\n' := by
  cases cs with
  | nil => exact nofun
  | cons c cs =>
    have hbreak : c ≠ '\n' := fun heq => h (heq ▸ List.mem_cons_self)
    have hline : ¬((true && c == '\n') = true) := by simpa using hbreak
    rw [escapeAll]
    split_ifs
    · exact nofun
    · exact nofun
    · obtain ⟨d, ds, hescape, hd⟩ := exists_cons_escape_of_ne (by decide) hbreak
      rw [hescape]
      intro h
      exact hd (Option.some.inj h)

/-- A string is read back at the end of a line, whichever form it is written in. -/
theorem run_quoted (cs : List Char) :
    run ⟨root, header, outer, .value, .none⟩ (quoted cs ++ ['\n']) =
      ended root header outer cs := by
  unfold quoted
  cases hform : Form.of cs with
  | basic =>
    refine run_lineString (q := .double) (head_escapeAll_line 0 cs) ?_
    rw [run_escapeAll_line, List.append_nil]
  | literal =>
    have hplain := plain_of_literal hform
    have hhead : cs.head? ≠ some '\'' := by
      intro h
      exact (hplain _ (List.mem_of_mem_head? h)).1 rfl
    refine run_lineString (q := .single) hhead ?_
    rw [run_literal_line hplain, List.append_nil]
  | basicBlock =>
    exact run_blockString (q := .double) (head_escapeAll_block 0)
      (blockReads_escapeAll (Nat.zero_le 2))
  | literalBlock =>
    obtain ⟨hruns, hplain⟩ := plain_of_literalBlock hform
    have hhead (hlines : '\n' ∉ cs) : cs.head? ≠ some '\n' := fun h =>
      hlines (List.mem_of_mem_head? h)
    exact run_blockString (q := .single) hhead
      (blockReads_literal (Nat.zero_le 2) hruns hplain)

end Strings

end Reader

section Breaks

/-- A text without carriage returns has its line breaks written as line feeds. -/
theorem joinBreaks_eq_self (h : '\r' ∉ cs) : joinBreaks cs = cs := by
  induction cs with
  | nil => rfl
  | cons c cs ih =>
    have hc : c ≠ '\r' := (List.ne_of_not_mem_cons h).symm
    have hcs : '\r' ∉ cs := List.not_mem_of_not_mem_cons h
    rw [joinBreaks, ih hcs]
    intro _ heq
    exact absurd heq hc

theorem return_notMem_hexUnit (n : Nat) : '\r' ∉ (Text.hexUnit n).map Char.toUpper := by
  have hdigit : ∀ d < 16, (Nat.digitChar d).toUpper ≠ '\r' := by decide
  intro h
  obtain ⟨_, hunit, hupper⟩ := List.mem_map.mp h
  obtain ⟨d, -, rfl⟩ := List.mem_map.mp hunit
  exact hdigit _ (Nat.mod_lt d (by decide)) hupper

theorem return_notMem_escape (c : Char) : '\r' ∉ escape c := by
  unfold escape
  split_ifs with h₁ h₂ h₃ h₄ h₅ hreturn hcontrol
  iterate 6 decide
  · simpa using return_notMem_hexUnit c.toNat
  · simpa using Ne.symm hreturn

theorem return_notMem_escapeAll (block : Bool) (n : Nat) (cs : List Char) :
    '\r' ∉ escapeAll block n cs := by
  induction cs generalizing n with
  | nil => exact List.not_mem_nil
  | cons c cs ih =>
    rw [escapeAll]
    split_ifs <;> simp [ih, return_notMem_escape]

/-- A string is written without carriage returns: it holds the ones of its text as escapes. -/
theorem return_notMem_quoted (cs : List Char) : '\r' ∉ quoted cs := by
  have hopening : '\r' ∉ opening cs := by
    unfold opening
    split_ifs <;> decide
  have hplain (h : ∀ c ∈ cs, c = '\n' ∨ isTextChar c = true) : '\r' ∉ cs := fun hmem => by
    rcases h _ hmem with hbreak | htext
    · exact absurd hbreak (by decide)
    · exact absurd htext (by decide)
  unfold quoted
  cases hform : Form.of cs with
  | basic => simp [return_notMem_escapeAll]
  | literal => simp [hplain fun c hc => .inr (plain_of_literal hform c hc).2]
  | basicBlock => simp [hopening, return_notMem_escapeAll]
  | literalBlock => simp [hopening, hplain (plain_of_literalBlock hform).2]

end Breaks

end EntityStore.Toml
