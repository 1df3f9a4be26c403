import EntityStore.Json.Number
import EntityStore.Text.CodePoint
import EntityStore.Text.Hexadecimal

/-! JSON texts read one character at a time. -/
namespace EntityStore.Json

/-- An open array or object, with what it holds so far. Of an object's member the key is known and
the value is due or just read. -/
inductive Open
  | array (done : List Json)
  | member (done : List (String × Json)) (key : String)

/-- What is due. After `[` and an opening brace the container may end at once. -/
inductive Due
  | value
  | firstItem
  | firstKey
  | key (done : List (String × Json))
  | colon (done : List (String × Json)) (key : String)
  | after (v : Json)

/-- The token being read; the characters of a string or word stand last first. Of an escape in hex
digits, `left` digits are still due after those that denote `unit`, and `high` is the high surrogate
before it. -/
inductive Token
  | none
  | word (chars : List Char)
  | str (chars : List Char)
  | escape (chars : List Char)
  | hex (chars : List Char) (high : Option Nat) (left unit : Nat)
  | surrogate (chars : List Char) (high : Nat)
  | surrogateEscape (chars : List Char) (high : Nat)

structure Reader where
  outer : List Open
  due : Due
  token : Token

namespace Reader

def start : Reader := ⟨[], .value, .none⟩

/-- Arrays and objects may stand in one another up to this depth. -/
def maxDepth : Nat := 127

/-- The characters of numbers and of the words `true`, `false` and `null`. -/
def isWordChar (c : Char) : Bool := c.isAlphanum || c == '-' || c == '+' || c == '.'

def isSpace (c : Char) : Bool := c == ' ' || c == '\n' || c == '\t' || c == '\r'

def word? (cs : List Char) : Option Json :=
  if cs = "null".toList then some .null
  else if cs = "true".toList then some (.bool true)
  else if cs = "false".toList then some (.bool false)
  else number? cs

def takeString (r : Reader) (s : String) : Option Reader :=
  match r.due with
  | .value | .firstItem => some ⟨r.outer, .after (.str s), .none⟩
  | .firstKey => some ⟨r.outer, .colon [] s, .none⟩
  | .key done => some ⟨r.outer, .colon done s, .none⟩
  | _ => none

def takeWord (r : Reader) (cs : List Char) : Option Reader :=
  (word? cs).map fun v => ⟨r.outer, .after v, .none⟩

def valueDue (r : Reader) : Bool :=
  match r.due with
  | .value | .firstItem => true
  | _ => false

def stringDue (r : Reader) : Bool :=
  match r.due with
  | .colon .. | .after _ => false
  | _ => true

/-- Ends the innermost container after the value `v`. -/
def close (r : Reader) (v : Json) (c : Char) : Option Reader :=
  match r.outer, c with
  | .array done :: outer, ']' => some ⟨outer, .after (.arr (v :: done).reverse), .none⟩
  | .member done key :: outer, '}' =>
    some ⟨outer, .after (.obj (Assoc.insert key v done)), .none⟩
  | .array done :: outer, ',' => some ⟨.array (v :: done) :: outer, .value, .none⟩
  | .member done key :: outer, ',' => some ⟨outer, .key (Assoc.insert key v done), .none⟩
  | _, _ => Option.none

def between (r : Reader) (c : Char) : Option Reader :=
  if isSpace c then some r
  else if c = '"' then if r.stringDue then some { r with token := .str [] } else none
  else if isWordChar c then if r.valueDue then some { r with token := .word [c] } else none
  else if c = '[' then
    if r.valueDue && r.outer.length < maxDepth then some ⟨.array [] :: r.outer, .firstItem, .none⟩
    else none
  else if c = '{' then
    if r.valueDue && r.outer.length < maxDepth then some ⟨r.outer, .firstKey, .none⟩ else none
  else match r.due with
    | .firstItem =>
      match r.outer, c with
      | .array [] :: outer, ']' => some ⟨outer, .after (.arr []), .none⟩
      | _, _ => none
    | .firstKey => if c = '}' then some ⟨r.outer, .after (.obj []), .none⟩ else none
    | .colon done key =>
      if c = ':' then some ⟨.member done key :: r.outer, .value, .none⟩ else none
    | .after v => r.close v c
    | _ => none

/-- The character that an escape of one letter stands for. -/
def escaped? (c : Char) : Option Char :=
  match c with
  | '"' => some '"'
  | '\\' => some '\\'
  | '/' => some '/'
  | 'b' => some '\x08'
  | 'f' => some '\x0c'
  | 'n' => some '\n'
  | 'r' => some '\r'
  | 't' => some '\t'
  | _ => none

/-- Takes a code unit. A high surrogate waits for a low one; neither may stand alone. -/
def takeUnit (r : Reader) (chars : List Char) (high : Option Nat) (unit : Nat) : Option Reader :=
  match high with
  | some h =>
    if Text.isLowSurrogate unit then
      some { r with token := .str (Text.charOfPair h unit :: chars) }
    else none
  | none =>
    if Text.isHighSurrogate unit then some { r with token := .surrogate chars unit }
    else (Text.charOf? unit).map fun c => { r with token := .str (c :: chars) }

def step (r : Reader) (c : Char) : Option Reader :=
  match r.token with
  | .none => r.between c
  | .word chars =>
    if isWordChar c then some { r with token := .word (c :: chars) }
    else (r.takeWord chars.reverse).bind (·.between c)
  | .str chars =>
    if c = '"' then r.takeString (String.ofList chars.reverse)
    else if c = '\\' then some { r with token := .escape chars }
    else if c.toNat < 0x20 then none
    else some { r with token := .str (c :: chars) }
  | .escape chars =>
    if c = 'u' then some { r with token := .hex chars none 4 0 }
    else (escaped? c).map fun d => { r with token := .str (d :: chars) }
  | .hex chars high left unit =>
    (Text.hexDigit? c).bind fun d =>
      if left = 1 then r.takeUnit chars high (16 * unit + d)
      else some { r with token := .hex chars high (left - 1) (16 * unit + d) }
  | .surrogate chars high =>
    if c = '\\' then some { r with token := .surrogateEscape chars high } else none
  | .surrogateEscape chars high =>
    if c = 'u' then some { r with token := .hex chars (some high) 4 0 } else none

def run (r : Reader) (cs : List Char) : Option Reader := cs.foldlM step r

/-- The value, when it is complete and nothing is open. -/
def finish (r : Reader) : Option Json :=
  let ended := match r.token with
    | .word chars => r.takeWord chars.reverse
    | .none => some r
    | _ => none
  ended.bind fun r =>
    match r.outer, r.due with
    | [], .after v => some v
    | _, _ => none

theorem run_append (r : Reader) (xs ys : List Char) :
    r.run (xs ++ ys) = (r.run xs).bind (·.run ys) := by
  simp only [run, List.foldlM_append]
  rfl

end Reader

def parse? (text : String) : Option Json := (Reader.start.run text.toList).bind Reader.finish

def parseMembers? (text : String) : Option (List (String × Json)) :=
  match parse? text with
  | some (.obj members) => some members
  | _ => none

end EntityStore.Json
