import EntityStore.Proofs.Json.Reader

/-! JSON texts read back, whatever blanks their layout puts between tokens: a value is read from the
text it is written as, unless its arrays and objects stand too deep in one another. -/
namespace EntityStore.Json

open Reader

variable {l : Layout} {depth : Nat} {r : Reader} {outer : List Open} {cs : List Char}

/-- A layout that puts nothing but blanks between tokens. -/
structure Layout.Blank (l : Layout) : Prop where
  lineBreak : ∀ depth, IsBlank (l.lineBreak depth)
  afterColon : IsBlank l.afterColon

theorem Layout.blank_compact : Layout.compact.Blank := ⟨fun _ => nofun, nofun⟩

theorem Layout.blank_pretty : Layout.pretty.Blank := by
  refine ⟨fun depth => List.forall_mem_cons.mpr ⟨rfl, fun c hc => ?_⟩, fun c hc => ?_⟩
  · rw [List.eq_of_mem_replicate hc]
    rfl
  · rw [List.mem_singleton.mp hc]
    rfl

section Words

theorem word?_ofInt {n : Int} (h : (int n).isRegular = true) :
    word? (Decimal.ofInt n) = some (int n) := by
  simp only [isRegular, Bool.and_eq_true, decide_eq_true_eq] at h
  have hnumber := number?_ofInt h.1 h.2
  -- The other words are no numbers.
  have hname {name : List Char} (hnone : number? name = none) : Decimal.ofInt n ≠ name := by
    rintro rfl
    rw [hnone] at hnumber
    cases hnumber
  unfold word?
  rw [if_neg (hname rfl), if_neg (hname rfl), if_neg (hname rfl), hnumber]

/-- An exact float is the one that its text is read as within a longer text, too. -/
theorem word?_floatText {x : Binary64} (h : (float x).isExact = true) :
    word? (floatText x) = some (float x) := by
  have hparse := isExact_float_iff.mp h
  have htext : (float x).compact.toList = floatText x := by
    rw [compact, String.toList_ofList, write]
  rw [parse?, htext] at hparse
  have hne : floatText x ≠ [] := by
    intro hnil
    rw [hnil] at hparse
    cases hparse
  rw [run_word rfl rfl hne (isWord_floatText x), Option.bind_some] at hparse
  simp only [finish, takeWord, List.reverse_reverse] at hparse
  cases hword : word? (floatText x) with
  | none =>
    rw [hword] at hparse
    cases hparse
  | some v =>
    rw [hword] at hparse
    exact hparse

end Words

/-- A value is read back where it fits, and stops the reader where it would stand too deep. -/
structure ReadsBack (l : Layout) (depth : Nat) (j : Json) : Prop where
  fits : ∀ r : Reader, r.valueDue = true → r.token = .none →
    r.outer.length + j.nesting ≤ maxDepth → Reads r (write l depth j) j
  deep : ∀ r : Reader, r.valueDue = true → r.token = .none → r.outer.length ≤ maxDepth →
    maxDepth < r.outer.length + j.nesting → r.run (write l depth j) = none

/-- After a value comes what follows it, if the value fits. -/
theorem ReadsBack.run_append {j : Json} (hj : ReadsBack l depth j) {r : Reader}
    (hdue : r.valueDue = true) (htoken : r.token = .none) (houter : r.outer.length ≤ maxDepth)
    (hcs : Ends cs) :
    r.run (write l depth j ++ cs) =
      if r.outer.length + j.nesting ≤ maxDepth then run ⟨r.outer, .after j, .none⟩ cs
      else none := by
  split_ifs with hfits
  · exact (hj.fits r hdue htoken hfits).run_append hcs
  · rw [Reader.run_append, hj.deep r hdue htoken houter (Nat.not_le.mp hfits)]
    rfl

section Rest

theorem ends_items (hl : l.Blank) (depth : Nat) (xs : List Json) (e : Nat) :
    Ends (writeItems l depth xs ++ (l.lineBreak e ++ [']'])) := by
  cases xs with
  | nil =>
    show Ends (l.lineBreak e ++ [']'])
    exact .blank_append (hl.lineBreak e) (.cons rfl [])
  | cons x xs => exact .cons rfl _

theorem ends_members (hl : l.Blank) (depth : Nat) (ms : List (String × Json)) (e : Nat) :
    Ends (writeMembers l depth ms ++ (l.lineBreak e ++ ['}'])) := by
  cases ms with
  | nil =>
    show Ends (l.lineBreak e ++ ['}'])
    exact .blank_append (hl.lineBreak e) (.cons rfl [])
  | cons m ms => exact .cons rfl _

/-- The items after the first are taken, up to the end of the array. -/
theorem run_items (hl : l.Blank) {xs : List Json} (hxs : ∀ x ∈ xs, ReadsBack l depth x)
    (houter : outer.length < maxDepth) (done : List Json) (y : Json) (e : Nat) :
    run ⟨.array done :: outer, .after y, .none⟩
        (writeItems l depth xs ++ (l.lineBreak e ++ [']'])) =
      if outer.length + 1 + nestingItems xs ≤ maxDepth then
        some ⟨outer, .after (.arr (done.reverse ++ y :: xs)), .none⟩
      else none := by
  induction xs generalizing done y with
  | nil =>
    have hclose : step ⟨.array done :: outer, .after y, .none⟩ ']' =
        some ⟨outer, .after (.arr (y :: done).reverse), .none⟩ := rfl
    have hfits : outer.length + 1 + nestingItems [] ≤ maxDepth := houter
    rw [if_pos hfits, writeItems, List.nil_append, run_blank_append rfl (hl.lineBreak e),
      run_singleton, hclose, List.reverse_cons]
  | cons x xs ih =>
    obtain ⟨hx, hxs⟩ := List.forall_mem_cons.mp hxs
    have hcomma : step ⟨.array done :: outer, .after y, .none⟩ ',' =
        some ⟨.array (y :: done) :: outer, .value, .none⟩ := rfl
    have hvalue := hx.run_append (r := ⟨.array (y :: done) :: outer, .value, .none⟩) rfl rfl houter
      (ends_items hl depth xs e)
    rw [writeItems, List.cons_append, List.append_assoc, List.append_assoc,
      run_cons_of_step hcomma, run_blank_append rfl (hl.lineBreak depth), hvalue, ih hxs,
      List.length_cons, nestingItems, List.reverse_cons, List.append_assoc]
    split_ifs <;> first | rfl | omega

/-- The members after the first are taken, up to the end of the object. -/
theorem run_members (hl : l.Blank) {ms : List (String × Json)}
    (hms : ∀ m ∈ ms, ReadsBack l depth m.2) (houter : outer.length < maxDepth)
    {done : List (String × Json)} {key : String} {y : Json}
    (hsorted : Assoc.Sorted (done ++ (key, y) :: ms)) (e : Nat) :
    run ⟨.member done key :: outer, .after y, .none⟩
        (writeMembers l depth ms ++ (l.lineBreak e ++ ['}'])) =
      if outer.length + 1 + nestingMembers ms ≤ maxDepth then
        some ⟨outer, .after (.obj (done ++ (key, y) :: ms)), .none⟩
      else none := by
  induction ms generalizing done key y with
  | nil =>
    have hclose : step ⟨.member done key :: outer, .after y, .none⟩ '}' =
        some ⟨outer, .after (.obj (Assoc.insert key y done)), .none⟩ := rfl
    have hfits : outer.length + 1 + nestingMembers [] ≤ maxDepth := houter
    rw [if_pos hfits, writeMembers, List.nil_append, run_blank_append rfl (hl.lineBreak e),
      run_singleton, hclose, hsorted.insert_eq_append]
  | cons m ms ih =>
    obtain ⟨k, x⟩ := m
    obtain ⟨hx, hms⟩ := List.forall_mem_cons.mp hms
    replace hx : ReadsBack l depth x := hx
    have hcomma : step ⟨.member done key :: outer, .after y, .none⟩ ',' =
        some ⟨outer, .key (done ++ [(key, y)]), .none⟩ := by
      rw [← hsorted.insert_eq_append]
      rfl
    have hvalue := hx.run_append (r := ⟨.member (done ++ [(key, y)]) k :: outer, .value, .none⟩)
      rfl rfl houter (ends_members hl depth ms e)
    have hsorted' : Assoc.Sorted (done ++ [(key, y)] ++ (k, x) :: ms) := by
      rwa [List.append_assoc]
    simp only [writeMembers, List.cons_append, List.append_assoc]
    rw [run_cons_of_step hcomma, run_blank_append rfl (hl.lineBreak depth),
      run_key rfl rfl rfl hl.afterColon, hvalue, ih hms hsorted', List.length_cons, nestingMembers,
      List.append_assoc]
    split_ifs <;> first | rfl | omega

end Rest

section Values

theorem readsBack_of_reads {j : Json} (hj : j.nesting = 0)
    (h : ∀ r : Reader, r.valueDue = true → r.token = .none → Reads r (write l depth j) j) :
    ReadsBack l depth j := by
  refine ⟨fun r hdue htoken _ => h r hdue htoken, fun r _ _ houter hdeep => ?_⟩
  omega

theorem readsBack_of_word {j : Json} (hj : j.nesting = 0) (hword : IsWord (write l depth j))
    (hv : word? (write l depth j) = some j) : ReadsBack l depth j :=
  readsBack_of_reads hj fun _ hdue htoken => reads_word hdue htoken hword hv

theorem reads_str (hdue : r.valueDue = true) (htoken : r.token = .none) (s : String) :
    Reads r (write l depth (.str s)) (.str s) := by
  refine .of_run ?_
  have hstring : r.stringDue = true ∧
      r.takeString s = some ⟨r.outer, .after (.str s), .none⟩ := by
    unfold valueDue at hdue
    unfold stringDue takeString
    split at hdue
    next h => simp only [h, and_self]
    next h => simp only [h, and_self]
    next => cases hdue
  rw [write, run_quoted hstring.1 htoken, hstring.2]

theorem readsBack_str (s : String) : ReadsBack l depth (.str s) :=
  readsBack_of_reads rfl fun _ hdue htoken => reads_str hdue htoken s

theorem readsBack_of_run {j : Json}
    (h : ∀ r : Reader, r.valueDue = true → r.token = .none →
      r.run (write l depth j) =
        if r.outer.length + j.nesting ≤ maxDepth then some ⟨r.outer, .after j, .none⟩
        else none) : ReadsBack l depth j := by
  refine ⟨fun r hdue htoken hfits => .of_run ?_, fun r hdue htoken _ hdeep => ?_⟩
  · rw [h r hdue htoken, if_pos hfits]
  · rw [h r hdue htoken, if_neg (Nat.not_le.mpr hdeep)]

theorem readsBack_arr (hl : l.Blank) {xs : List Json} (hxs : ∀ x ∈ xs, ReadsBack l (depth + 1) x) :
    ReadsBack l depth (.arr xs) := by
  refine readsBack_of_run fun r hdue htoken => ?_
  cases xs with
  | nil =>
    have hclose : step ⟨.array [] :: r.outer, .firstItem, .none⟩ ']' =
        some ⟨r.outer, .after (.arr []), .none⟩ := rfl
    rw [write, run_openArray hdue htoken, run_singleton, hclose]
    rfl
  | cons x xs =>
    obtain ⟨hx, hxs⟩ := List.forall_mem_cons.mp hxs
    rw [write, run_openArray hdue htoken]
    by_cases houter : r.outer.length < maxDepth
    · have hvalue := hx.run_append (r := ⟨.array [] :: r.outer, .firstItem, .none⟩) rfl rfl houter
        (ends_items hl (depth + 1) xs depth)
      simp only [List.append_assoc]
      rw [if_pos houter, run_blank_append rfl (hl.lineBreak (depth + 1)), hvalue,
        run_items hl hxs houter, List.length_cons, nesting, nestingItems]
      split_ifs <;> first | rfl | omega
    · rw [if_neg houter, nesting, if_neg (by omega)]

theorem readsBack_obj (hl : l.Blank) {ms : List (String × Json)} (hsorted : Assoc.Sorted ms)
    (hms : ∀ m ∈ ms, ReadsBack l (depth + 1) m.2) : ReadsBack l depth (.obj ms) := by
  refine readsBack_of_run fun r hdue htoken => ?_
  cases ms with
  | nil =>
    have hclose : step ⟨r.outer, .firstKey, .none⟩ '}' =
        some ⟨r.outer, .after (.obj []), .none⟩ := rfl
    rw [write, run_openObject hdue htoken, run_singleton, hclose]
    rfl
  | cons m ms =>
    obtain ⟨key, x⟩ := m
    obtain ⟨hx, hms⟩ := List.forall_mem_cons.mp hms
    replace hx : ReadsBack l (depth + 1) x := hx
    rw [write, run_openObject hdue htoken]
    by_cases houter : r.outer.length < maxDepth
    · have hvalue := hx.run_append (r := ⟨.member [] key :: r.outer, .value, .none⟩) rfl rfl houter
        (ends_members hl (depth + 1) ms depth)
      simp only [List.append_assoc, List.cons_append]
      rw [if_pos houter, run_blank_append rfl (hl.lineBreak (depth + 1)),
        run_key rfl rfl rfl hl.afterColon, hvalue, run_members hl hms houter hsorted,
        List.length_cons, nesting, nestingMembers]
      split_ifs <;> first | rfl | omega
    · rw [if_neg houter, nesting, if_neg (by omega)]

/-- A value whose integers have 64 bits, whose keys increase, and whose floats are exact, is read
back where it fits. -/
theorem readsBack (hl : l.Blank) {j : Json} (hregular : j.every isRegular = true)
    (hexact : j.every isExact = true) (depth : Nat) : ReadsBack l depth j := by
  induction j using Json.induct generalizing depth with
  | null => exact readsBack_of_word rfl (by decide : IsWord "null".toList) rfl
  | bool b =>
    cases b with
    | true => exact readsBack_of_word rfl (by decide : IsWord "true".toList) rfl
    | false => exact readsBack_of_word rfl (by decide : IsWord "false".toList) rfl
  | int n => exact readsBack_of_word rfl (isWord_ofInt n) (word?_ofInt hregular)
  | float x => exact readsBack_of_word rfl (isWord_floatText x) (word?_floatText hexact)
  | str s => exact readsBack_str s
  | arr xs ih =>
    have hregular := (every_arr_iff.mp hregular).2
    have hexact := (every_arr_iff.mp hexact).2
    exact readsBack_arr hl fun x hx => ih x hx (hregular x hx) (hexact x hx) (depth + 1)
  | obj ms ih =>
    obtain ⟨hsorted, hregular⟩ := every_obj_iff.mp hregular
    have hexact := (every_obj_iff.mp hexact).2
    exact readsBack_obj hl (of_decide_eq_true hsorted) fun m hm =>
      ih m hm (hregular m hm) (hexact m hm) (depth + 1)

/-- The text of a value is read as this value, or as none if the value goes too deep. -/
theorem parse?_write (hl : l.Blank) {j : Json} (hregular : j.every isRegular = true)
    (hexact : j.every isExact = true) :
    parse? (String.ofList (write l 0 j)) = if j.nesting ≤ maxDepth then some j else none := by
  have hj := readsBack hl hregular hexact 0
  have hdepth : start.outer.length + j.nesting = j.nesting := Nat.zero_add _
  rw [parse?, String.toList_ofList]
  split_ifs with hfits
  · rw [← hdepth] at hfits
    exact (hj.fits start rfl rfl hfits).finish rfl
  · rw [← hdepth] at hfits
    rw [hj.deep start rfl rfl (Nat.zero_le _) (Nat.not_le.mp hfits)]
    rfl

theorem parseMembers?_write (hl : l.Blank) {members : List (String × Json)}
    (hregular : (obj members).every isRegular = true)
    (hexact : (obj members).every isExact = true) :
    parseMembers? (String.ofList (write l 0 (.obj members))) =
      if (obj members).nesting ≤ maxDepth then some members else none := by
  rw [parseMembers?, parse?_write hl hregular hexact]
  split_ifs <;> rfl

end Values

end EntityStore.Json
