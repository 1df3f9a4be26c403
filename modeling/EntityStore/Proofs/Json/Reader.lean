import EntityStore.Proofs.Json.Number

/-! How the reader takes blanks, words and strings. -/
namespace EntityStore.Json.Reader

variable {r r' : Reader} {outer : List Open} {due : Due} {c : Char} {cs chars : List Char}
  {v : Json}

theorem run_cons (r : Reader) (c : Char) (cs : List Char) :
    r.run (c :: cs) = (r.step c).bind (·.run cs) := rfl

theorem run_cons_of_step (h : r.step c = some r') (cs : List Char) :
    r.run (c :: cs) = r'.run cs := by
  rw [run_cons, h]
  rfl

theorem run_singleton (r : Reader) (c : Char) : r.run [c] = r.step c :=
  Option.bind_fun_some (r.step c)

section Blank

/-- Characters that may stand between any two tokens. -/
def IsBlank (cs : List Char) : Prop := ∀ c ∈ cs, isSpace c = true

theorem run_blank (htoken : r.token = .none) (h : IsBlank cs) : r.run cs = some r := by
  induction cs with
  | nil => rfl
  | cons c cs ih =>
    obtain ⟨hc, hcs⟩ := List.forall_mem_cons.mp h
    have hstep : r.step c = some r := by simp only [step, htoken, between, hc, if_true]
    rw [run_cons_of_step hstep, ih hcs]

theorem run_blank_append (htoken : r.token = .none) (h : IsBlank chars) (cs : List Char) :
    r.run (chars ++ cs) = r.run cs := by
  rw [run_append, run_blank htoken h, Option.bind_some]

end Blank

section Word

theorem isSpace_of_isWordChar (h : isWordChar c = true) : isSpace c = false := by
  by_contra hspace
  simp only [isSpace, Bool.not_eq_false, Bool.or_eq_true, beq_iff_eq] at hspace
  rcases hspace with ((rfl | rfl) | rfl) | rfl <;> exact absurd h (by decide)

theorem step_first_wordChar (hdue : r.valueDue = true) (htoken : r.token = .none)
    (h : isWordChar c = true) : r.step c = some { r with token := .word [c] } := by
  have hquote : c ≠ '"' := by
    rintro rfl
    exact absurd h (by decide)
  simp only [step, htoken, between, isSpace_of_isWordChar h, Bool.false_eq_true, if_false, hquote,
    h, if_true, hdue]

theorem run_rest_of_word (h : IsWord cs) (chars : List Char) :
    run ⟨outer, due, .word chars⟩ cs = some ⟨outer, due, .word (cs.reverse ++ chars)⟩ := by
  induction cs generalizing chars with
  | nil => rfl
  | cons c cs ih =>
    obtain ⟨hc, hcs⟩ := List.forall_mem_cons.mp h
    have hstep : step ⟨outer, due, .word chars⟩ c = some ⟨outer, due, .word (c :: chars)⟩ := by
      simp only [step, hc, if_true]
    rw [run_cons_of_step hstep, ih hcs, List.reverse_cons, List.append_assoc]
    rfl

theorem run_word (hdue : r.valueDue = true) (htoken : r.token = .none) (hne : cs ≠ [])
    (h : IsWord cs) : r.run cs = some { r with token := .word cs.reverse } := by
  obtain ⟨c, cs, rfl⟩ := List.exists_cons_of_ne_nil hne
  obtain ⟨hc, hcs⟩ := List.forall_mem_cons.mp h
  rw [run_cons_of_step (step_first_wordChar hdue htoken hc), run_rest_of_word hcs,
    List.reverse_cons]

/-- Readers that end alike, and go on alike after any character that ends a word. -/
structure Settles (r r' : Reader) : Prop where
  finish : r.finish = r'.finish
  step : ∀ c, isWordChar c = false → r.step c = r'.step c

/-- A text in which a reader that expects a value finds this one. -/
def Reads (r : Reader) (cs : List Char) (v : Json) : Prop :=
  ∃ r', r.run cs = some r' ∧ Settles r' ⟨r.outer, .after v, .none⟩

theorem Reads.of_run (h : r.run cs = some ⟨r.outer, .after v, .none⟩) : Reads r cs v :=
  ⟨_, h, rfl, fun _ _ => rfl⟩

/-- A text that ends a word before it. -/
def Ends (cs : List Char) : Prop := ∃ c ∈ cs.head?, isWordChar c = false

theorem Ends.cons (hc : isWordChar c = false) (cs : List Char) : Ends (c :: cs) := ⟨c, rfl, hc⟩

theorem Ends.blank_append (hblank : IsBlank chars) (h : Ends cs) : Ends (chars ++ cs) := by
  cases chars with
  | nil => exact h
  | cons b bs =>
    have hspace : isSpace b = true := hblank b List.mem_cons_self
    have hword : isWordChar b = false := by
      by_contra hword
      rw [isSpace_of_isWordChar (Bool.of_not_eq_false hword)] at hspace
      cases hspace
    exact .cons hword _

/-- What follows a value is taken after it. -/
theorem Reads.run_append (h : Reads r chars v) (hcs : Ends cs) :
    r.run (chars ++ cs) = run ⟨r.outer, .after v, .none⟩ cs := by
  obtain ⟨c, hhead, hc⟩ := hcs
  obtain ⟨rest, rfl⟩ := List.head?_eq_some_iff.mp hhead
  obtain ⟨r', hrun, hsettles⟩ := h
  rw [Reader.run_append, hrun, Option.bind_some, run_cons, hsettles.step c hc]
  rfl

theorem Reads.finish (h : Reads r cs v) (houter : r.outer = []) :
    (r.run cs).bind Reader.finish = some v := by
  obtain ⟨r', hrun, hsettles⟩ := h
  rw [hrun, Option.bind_some, hsettles.finish, houter]
  rfl

theorem reads_word (hdue : r.valueDue = true) (htoken : r.token = .none) (h : IsWord cs)
    (hv : word? cs = some v) : Reads r cs v := by
  have hne : cs ≠ [] := by
    rintro rfl
    cases hv
  have htake (r : Reader) : r.takeWord cs.reverse.reverse = some ⟨r.outer, .after v, .none⟩ := by
    rw [takeWord, List.reverse_reverse, hv]
    rfl
  refine ⟨_, run_word hdue htoken hne h, ?_, fun c hc => ?_⟩
  · simp only [Reader.finish, htake]
  · simp only [Reader.step, hc, Bool.false_eq_true, if_false, htake]
    rfl

end Word

section Text

theorem hexDigit?_digitChar : ∀ d < 16, Text.hexDigit? (Nat.digitChar d) = some d := by
  decide

theorem step_hex {high : Option Nat} {left unit d : Nat} (hd : d < 16) :
    step ⟨outer, due, .hex chars high left unit⟩ (Nat.digitChar d) =
      if left = 1 then
        takeUnit ⟨outer, due, .hex chars high left unit⟩ chars high (16 * unit + d)
      else some ⟨outer, due, .hex chars high (left - 1) (16 * unit + d)⟩ := by
  simp only [step, hexDigit?_digitChar d hd, Option.bind_some]

/-- Four digits are taken as the unit that they denote. -/
theorem run_hexUnit {high : Option Nat} {n : Nat} (hn : n < 65536) :
    run ⟨outer, due, .hex chars high 4 0⟩ (Text.hexUnit n) =
      takeUnit ⟨outer, due, .hex chars high 1 (n / 16)⟩ chars high n := by
  have hlast : 16 * (n / 16) + n % 16 = n := by omega
  have hthird : 16 * (16 * (16 * 0 + n / 4096 % 16) + n / 256 % 16) + n / 16 % 16 = n / 16 := by
    omega
  have hmod (m : Nat) : m % 16 < 16 := Nat.mod_lt m (by decide)
  show run _ [Nat.digitChar (n / 4096 % 16), Nat.digitChar (n / 256 % 16),
    Nat.digitChar (n / 16 % 16), Nat.digitChar (n % 16)] = _
  rw [run_cons_of_step (step_hex (hmod _)), run_cons_of_step (step_hex (hmod _)),
    run_cons_of_step (step_hex (hmod _)), hthird, run_singleton, step_hex (hmod _), hlast]
  rfl

/-- A character of a string is read back from its escape. -/
theorem run_escape (c : Char) :
    run ⟨outer, due, .str chars⟩ (escape c) = some ⟨outer, due, .str (c :: chars)⟩ := by
  unfold escape
  split_ifs with hquote hslash h₁ h₂ h₃ h₄ h₅ hcontrol
  · subst hquote
    rfl
  · subst hslash
    rfl
  · subst h₁
    rfl
  · subst h₂
    rfl
  · subst h₃
    rfl
  · subst h₄
    rfl
  · subst h₅
    rfl
  · have hhex : run ⟨outer, due, .str chars⟩ ('\\' :: 'u' :: Text.hexUnit c.toNat) =
        run ⟨outer, due, .hex chars none 4 0⟩ (Text.hexUnit c.toNat) := rfl
    have hhigh : Text.isHighSurrogate c.toNat = false := by
      simp only [Text.isHighSurrogate, Bool.and_eq_false_imp, decide_eq_true_eq]
      omega
    have hchar : Text.charOf? c.toNat = some c := by
      rw [Text.charOf?, if_pos (.inl (by omega)), Char.ofNat_toNat]
    rw [hhex, run_hexUnit (by omega), takeUnit]
    simp only [hhigh, Bool.false_eq_true, if_false, hchar, Option.map_some]
  · simp only [run_cons, step, hquote, hslash, hcontrol, if_false]
    rfl

theorem run_flatMap_escape (cs : List Char) :
    run ⟨outer, due, .str chars⟩ (cs.flatMap escape) =
      some ⟨outer, due, .str (cs.reverse ++ chars)⟩ := by
  induction cs generalizing chars with
  | nil => rfl
  | cons c cs ih =>
    rw [List.flatMap_cons, run_append, run_escape, Option.bind_some, ih, List.reverse_cons,
      List.append_assoc]
    rfl

/-- A string in quotes is taken as this string. -/
theorem run_quoted (hdue : r.stringDue = true) (htoken : r.token = .none) (s : String) :
    r.run (quoted s) = r.takeString s := by
  have hopen : r.step '"' = some { r with token := .str [] } := by
    simp only [step, htoken, between, hdue]
    rfl
  have hclose : step { r with token := .str s.toList.reverse } '"' = r.takeString s := by
    show takeString _ (String.ofList s.toList.reverse.reverse) = _
    rw [List.reverse_reverse, String.ofList_toList]
    rfl
  rw [quoted, run_cons_of_step hopen, run_append, run_flatMap_escape, Option.bind_some,
    List.append_nil, run_singleton, hclose]

end Text

section Container

theorem run_openArray (hdue : r.valueDue = true) (htoken : r.token = .none) (cs : List Char) :
    r.run ('[' :: cs) =
      if r.outer.length < maxDepth then run ⟨.array [] :: r.outer, .firstItem, .none⟩ cs
      else none := by
  have hstep : r.step '[' =
      if r.outer.length < maxDepth then some ⟨.array [] :: r.outer, .firstItem, .none⟩
      else none := by
    simp only [step, htoken, between, hdue, Bool.true_and, decide_eq_true_eq]
    rfl
  rw [run_cons, hstep]
  split_ifs <;> rfl

theorem run_openObject (hdue : r.valueDue = true) (htoken : r.token = .none) (cs : List Char) :
    r.run ('{' :: cs) =
      if r.outer.length < maxDepth then run ⟨r.outer, .firstKey, .none⟩ cs else none := by
  have hstep : r.step '{' =
      if r.outer.length < maxDepth then some ⟨r.outer, .firstKey, .none⟩ else none := by
    simp only [step, htoken, between, hdue, Bool.true_and, decide_eq_true_eq]
    rfl
  rw [run_cons, hstep]
  split_ifs <;> rfl

/-- A key is taken with its colon, and then a value is due. -/
theorem run_key {done : List (String × Json)} {key : String} (hdue : r.stringDue = true)
    (htoken : r.token = .none)
    (hkey : r.takeString key = some ⟨r.outer, .colon done key, .none⟩) (hblank : IsBlank chars)
    (cs : List Char) :
    r.run (quoted key ++ ':' :: (chars ++ cs)) =
      run ⟨.member done key :: r.outer, .value, .none⟩ cs := by
  have hcolon : step ⟨r.outer, .colon done key, .none⟩ ':' =
      some ⟨.member done key :: r.outer, .value, .none⟩ := rfl
  rw [run_append, run_quoted hdue htoken, hkey, Option.bind_some, run_cons_of_step hcolon,
    run_blank_append rfl hblank]

end Container

end EntityStore.Json.Reader
