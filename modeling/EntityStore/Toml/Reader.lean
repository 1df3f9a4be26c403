import EntityStore.Toml.Scalar
import EntityStore.Toml.Table

/-! TOML documents read one character at a time. -/
namespace EntityStore.Toml

/-- The delimiter of a string. Between single quotes every character stands for itself. -/
inductive Quote
  | single
  | double
deriving DecidableEq, Repr

def Quote.char : Quote → Char
  | .single => '\''
  | .double => '"'

/-- What a key is for. -/
inductive KeyUse
  | entry
  | header
  | series
deriving DecidableEq, Repr

/-- What is open around the place: an array with its items, last first, a table in braces, or an
entry whose value is due or just read. -/
inductive Open
  | array (done : List Json)
  | braces (done : Items)
  | entry (key : List String)

/-- What is due. A bracket at the start of a line may begin one header or another; after the bracket
of an array and the brace of a table they may end at once. -/
inductive Due
  | line
  | bracket
  | part (use : KeyUse) (done : List String)
  | afterPart (use : KeyUse) (done : List String)
  | seriesEnd (key : List String)
  | lineEnd
  | value
  | item
  | member
  | after (v : Json)

/-- The token being read; characters stand last first. A string of several lines may hold quotes in
a row, `run` of them at present. At the end of a line it may be folded: a backslash drops the white
space behind it, `broken` once a line has ended. Of an escape in hex digits, `left` digits are still
due after those that denote `code`. -/
inductive Token
  | none
  | comment
  | word (chars : List Char)
  | wordBlank (chars : List Char)
  | opening (q : Quote) (twice : Bool)
  | line (q : Quote) (chars : List Char)
  | blockStart (q : Quote)
  | block (q : Quote) (chars : List Char) (run : Nat)
  | fold (chars : List Char) (broken : Bool)
  | escape (block : Bool) (chars : List Char)
  | hex (block : Bool) (chars : List Char) (left code : Nat)

/-- A reader: the tables so far, the header they are under, and the place in the text. -/
structure Reader where
  root : Items
  header : List String
  outer : List Open
  due : Due
  token : Token

namespace Reader

def start : Reader := ⟨[], [], [], .line, .none⟩

/-- Arrays and tables in braces may stand in one another up to this depth, and a key may have this
many parts. -/
def maxDepth : Nat := 79

def isKeyChar (c : Char) : Bool := c.isAlphanum || c == '_' || c == '-'

/-- The characters of numbers, dates and truth values. -/
def isScalarChar (c : Char) : Bool := isKeyChar c || c == '+' || c == '.' || c == ':'

/-- The characters that stand for themselves in comments and strings. -/
def isTextChar (c : Char) : Bool := c == '\t' || (0x20 ≤ c.toNat && c.toNat != 0x7F)

def Open.isContainer : Open → Bool
  | .entry _ => false
  | _ => true

/-- Whether one more array or table in braces may be opened. -/
def mayOpen (r : Reader) : Bool := r.outer.countP Open.isContainer < maxDepth

def valueDue (r : Reader) : Bool :=
  match r.due with
  | .value | .item => true
  | _ => false

def takePart (r : Reader) (part : String) : Option Reader :=
  match r.due with
  | .line | .member => some { r with due := .afterPart .entry [part], token := .none }
  | .bracket => some { r with due := .afterPart .header [part], token := .none }
  | .part use done =>
    if done.length < maxDepth then
      some { r with due := .afterPart use (done ++ [part]), token := .none }
    else none
  | _ => none

def takeString (r : Reader) (s : String) : Option Reader :=
  if r.valueDue then some { r with due := .after (.str s), token := .none } else r.takePart s

def takeWord (r : Reader) (chars : List Char) : Option Reader :=
  if r.valueDue then (scalar? chars).map fun v => { r with due := .after v, token := .none }
  else r.takePart (String.ofList chars)

def isWordChar (r : Reader) (c : Char) : Bool :=
  match r.due with
  | .value | .item => isScalarChar c
  | .line | .member | .bracket | .part .. => isKeyChar c
  | _ => false

def stringDue (r : Reader) : Bool :=
  match r.due with
  | .value | .item | .line | .member | .bracket | .part .. => true
  | _ => false

def endEntry (r : Reader) (key : List String) (v : Json) : Option Reader :=
  (r.root.addValue r.header key v).map fun root =>
    { r with root, outer := [], due := .lineEnd, token := .none }

/-- Makes the table of a header. -/
def endHeader (r : Reader) (series : Bool) (key : List String) : Option Reader :=
  (r.root.addHeader series key).map fun root =>
    { r with root, header := key, due := .lineEnd, token := .none }

/-- The reader where a line or a comment may end. -/
def atLineEnd (r : Reader) : Option Reader :=
  match r.due, r.outer with
  | .line, _ | .lineEnd, _ | .item, _ | .after _, .array _ :: _ => some r
  | .after v, [.entry key] => r.endEntry key v
  | _, _ => none

def lineBreak (r : Reader) : Option Reader :=
  r.atLineEnd.map fun r =>
    match r.due with
    | .lineEnd => { r with due := .line }
    | _ => r

/-- A blank outside strings and words. The brackets of a header over a series stand together. -/
def blank (r : Reader) : Option Reader :=
  match r.due with
  | .bracket => some { r with due := .part .header [] }
  | .seriesEnd _ => none
  | _ => some r

/-- Takes a mark after a value in an array or in braces. -/
def takeMark (r : Reader) (v : Json) (c : Char) : Option Reader :=
  match r.outer, c with
  | .array done :: outer, ',' => some { r with outer := .array (v :: done) :: outer, due := .item }
  | .array done :: outer, ']' =>
    some { r with outer, due := .after (.arr (v :: done).reverse) }
  | .entry key :: .braces done :: outer, ',' =>
    (done.putValue key v .header).map fun done =>
      { r with outer := .braces done :: outer, due := .part .entry [] }
  | .entry key :: .braces done :: outer, '}' =>
    (done.putValue key v .header).map fun done =>
      { r with outer, due := .after (.obj (membersOf done)) }
  | _, _ => none

def mark (r : Reader) (c : Char) : Option Reader :=
  match r.due with
  | .line => if c = '[' then some { r with due := .bracket } else none
  | .bracket => if c = '[' then some { r with due := .part .series [] } else none
  | .afterPart use done =>
    if c = '.' then some { r with due := .part use done }
    else match use with
      | .entry =>
        if c = '=' then some { r with outer := .entry done :: r.outer, due := .value } else none
      | .header => if c = ']' then r.endHeader false done else none
      | .series => if c = ']' then some { r with due := .seriesEnd done } else none
  | .seriesEnd key => if c = ']' then r.endHeader true key else none
  | .value | .item =>
    if c = '[' ∧ r.mayOpen then some { r with outer := .array [] :: r.outer, due := .item }
    else if c = '{' ∧ r.mayOpen then some { r with outer := .braces [] :: r.outer, due := .member }
    else match r.due, r.outer with
      | .item, .array done :: outer =>
        if c = ']' then some { r with outer, due := .after (.arr done.reverse) } else none
      | _, _ => none
  | .member =>
    match r.outer with
    | .braces _ :: outer => if c = '}' then some { r with outer, due := .after (.obj []) } else none
    | _ => none
  | .after v => r.takeMark v c
  | .part .. | .lineEnd => none

def between (r : Reader) (c : Char) : Option Reader :=
  if c = ' ' ∨ c = '\t' then r.blank
  else if c = '\n' then r.lineBreak
  else if c = '#' then r.atLineEnd.map fun r => { r with token := .comment }
  else if c = '"' then if r.stringDue then some { r with token := .opening .double false } else none
  else if c = '\'' then
    if r.stringDue then some { r with token := .opening .single false } else none
  else if r.isWordChar c then some { r with token := .word [c] }
  else r.mark c

/-- The character that an escape of one letter stands for. -/
def escaped? (c : Char) : Option Char :=
  match c with
  | '"' => some '"'
  | '\\' => some '\\'
  | 'b' => some '\x08'
  | 'f' => some '\x0c'
  | 'n' => some '\n'
  | 'r' => some '\r'
  | 't' => some '\t'
  | _ => none

/-- The token of a string that goes on after an escape. -/
def resumed (block : Bool) (chars : List Char) : Token :=
  if block then .block .double chars 0 else .line .double chars

/-- Takes a character of a string on one line. -/
def stepLine (r : Reader) (q : Quote) (chars : List Char) (c : Char) : Option Reader :=
  if c = q.char then r.takeString (String.ofList chars.reverse)
  else if q = .double ∧ c = '\\' then some { r with token := .escape false chars }
  else if isTextChar c then some { r with token := .line q (c :: chars) }
  else none

/-- Takes a character of a string on several lines that is no quote. -/
def stepBlockText (r : Reader) (q : Quote) (chars : List Char) (c : Char) : Option Reader :=
  if q = .double ∧ c = '\\' then some { r with token := .escape true chars }
  else if c = '\n' ∨ isTextChar c then some { r with token := .block q (c :: chars) 0 }
  else none

/-- Takes a character of a string on several lines, after `run` quotes. Three quotes end it, and up
to two may stand before them. -/
def stepBlock (r : Reader) (q : Quote) (chars : List Char) (run : Nat) (c : Char) :
    Option Reader :=
  if c = q.char then if run < 5 then some { r with token := .block q chars (run + 1) } else none
  else if run < 3 then r.stepBlockText q (List.replicate run q.char ++ chars) c
  else
    (r.takeString (String.ofList (List.replicate (run - 3) q.char ++ chars).reverse)).bind
      (·.between c)

def step (r : Reader) (c : Char) : Option Reader :=
  match r.token with
  | .none => r.between c
  | .comment =>
    if c = '\n' then { r with token := .none }.between c
    else if isTextChar c then some r
    else none
  | .word chars =>
    if r.isWordChar c then some { r with token := .word (c :: chars) }
    else if c = ' ' ∧ r.valueDue ∧ (date? chars.reverse).any (·.2.isEmpty) then
      some { r with token := .wordBlank chars }
    else (r.takeWord chars.reverse).bind (·.between c)
  | .wordBlank chars =>
    if c.isDigit then some { r with token := .word (c :: ' ' :: chars) }
    else (r.takeWord chars.reverse).bind (·.between c)
  | .opening q false =>
    if c = q.char then some { r with token := .opening q true } else r.stepLine q [] c
  | .opening q true =>
    if c = q.char ∧ r.valueDue then some { r with token := .blockStart q }
    else (r.takeString "").bind (·.between c)
  | .line q chars => r.stepLine q chars c
  | .blockStart q =>
    if c = '\n' then some { r with token := .block q [] 0 } else r.stepBlock q [] 0 c
  | .block q chars run => r.stepBlock q chars run c
  | .fold chars broken =>
    if c = ' ' ∨ c = '\t' then some r
    else if c = '\n' then some { r with token := .fold chars true }
    else if broken then r.stepBlock .double chars 0 c
    else none
  | .escape block chars =>
    if c = 'u' then some { r with token := .hex block chars 4 0 }
    else if c = 'U' then some { r with token := .hex block chars 8 0 }
    else if block ∧ (c = ' ' ∨ c = '\t') then some { r with token := .fold chars false }
    else if block ∧ c = '\n' then some { r with token := .fold chars true }
    else (escaped? c).map fun d => { r with token := resumed block (d :: chars) }
  | .hex block chars left code =>
    (Text.hexDigit? c).bind fun d =>
      let code := 16 * code + d
      if left = 1 then
        (Text.charOf? code).map fun d => { r with token := resumed block (d :: chars) }
      else some { r with token := .hex block chars (left - 1) code }

def run (r : Reader) (cs : List Char) : Option Reader := cs.foldlM step r

/-- Ends the token at the end of the text. -/
def endToken (r : Reader) : Option Reader :=
  match r.token with
  | .none | .comment => some { r with token := .none }
  | .word chars | .wordBlank chars => r.takeWord chars.reverse
  | .opening _ true => r.takeString ""
  | .block q chars run =>
    if 3 ≤ run then r.takeString (String.ofList (List.replicate (run - 3) q.char ++ chars).reverse)
    else none
  | _ => none

/-- The tables, when the last line is complete and nothing is open. -/
def finish (r : Reader) : Option Items :=
  (r.endToken.bind atLineEnd).bind fun r =>
    match r.outer, r.due with
    | [], .line | [], .lineEnd => some r.root
    | _, _ => none

theorem run_append (r : Reader) (xs ys : List Char) :
    r.run (xs ++ ys) = (r.run xs).bind (·.run ys) := by
  simp only [run, List.foldlM_append]
  rfl

end Reader

/-- A text with every line break written as a line feed. -/
def joinBreaks : List Char → List Char
  | [] => []
  | '\r' :: '\n' :: cs => '\n' :: joinBreaks cs
  | c :: cs => c :: joinBreaks cs

/-- The members of a TOML document. A byte order mark in front is left out. -/
def parse? (text : String) : Option (List (String × Json)) :=
  let body := match text.toList with
    | '\ufeff' :: cs => cs
    | cs => cs
  ((Reader.start.run (joinBreaks body)).bind Reader.finish).map membersOf

end EntityStore.Toml
