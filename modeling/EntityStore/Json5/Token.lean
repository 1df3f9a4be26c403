import EntityStore.Text.Alphanumeric
import EntityStore.Text.Blank
import EntityStore.Text.CodePoint
import EntityStore.Text.Hexadecimal

/-! Tokens of JSON5 texts. -/
namespace EntityStore.Json5

/-- A token: a mark of the syntax, a word without quotes, or a string. -/
inductive Token
  | mark (c : Char)
  | word (chars : List Char)
  | str (s : String)
deriving DecidableEq, Repr

/-- The characters that end a line. -/
def isLineEnd (c : Char) : Bool := c == '\n' || c == '\r' || c == '\u2028' || c == '\u2029'

/-- White space, the byte order mark among it. -/
def isSpace (c : Char) : Bool := (Text.isBlank c && c != '\u0085') || c == '\ufeff'

def isMark (c : Char) : Bool :=
  c == '[' || c == ']' || c == '{' || c == '}' || c == ',' || c == ':'

/-- The characters of words: all but white space, marks, and those that start strings and comments.
-/
def isWordChar (c : Char) : Bool :=
  !isSpace c && !isMark c && c != '"' && c != '\'' && c != '/'

/-- The character of a code unit in four hexadecimal digits, and the rest. A high surrogate needs an
escape of a low one behind it. -/
def unicodeEscape? (cs : List Char) : Option (Char × List Char) := do
  let (unit, rest) ← Text.fixedHex? 4 cs
  if Text.isHighSurrogate unit then
    match rest with
    | '\\' :: 'u' :: rest =>
      let (low, rest) ← Text.fixedHex? 4 rest
      if Text.isLowSurrogate low then return (Text.charOfPair unit low, rest) else none
    | _ => none
  else return (← Text.charOf? unit, rest)

/-- What an escape behind its backslash stands for, and the rest. A line end stands for nothing, and
digits other than zero may not be escaped. -/
def escape? : List Char → Option (List Char × List Char)
  | [] => none
  | 'b' :: cs => some (['\x08'], cs)
  | 'f' :: cs => some (['\x0c'], cs)
  | 'n' :: cs => some (['\n'], cs)
  | 'r' :: cs => some (['\r'], cs)
  | 't' :: cs => some (['\t'], cs)
  | 'v' :: cs => some (['\x0b'], cs)
  | '0' :: cs => some (['\x00'], cs)
  | 'x' :: cs => do
    let (code, rest) ← Text.fixedHex? 2 cs
    return ([Char.ofNat code], rest)
  | 'u' :: cs => do
    let (c, rest) ← unicodeEscape? cs
    return ([c], rest)
  | '\r' :: '\n' :: cs => some ([], cs)
  | c :: cs => if isLineEnd c then some ([], cs) else if c.isDigit then none else some ([c], cs)

/-- A string up to the quote `q` that ends it, and the rest. Each step takes a character. -/
def body? (q : Char) : Nat → List Char → Option (List Char × List Char)
  | 0, _ => none
  | _, [] => none
  | n + 1, c :: cs =>
    if c = q then some ([], cs)
    else if c = '\\' then do
      let (here, rest) ← escape? cs
      let (more, rest) ← body? q n rest
      return (here ++ more, rest)
    else if isLineEnd c then none
    else do
      let (more, rest) ← body? q n cs
      return (c :: more, rest)

/-- What follows a comment up to its closing marks. -/
def afterComment? : List Char → Option (List Char)
  | [] => none
  | '*' :: '/' :: cs => some cs
  | _ :: cs => afterComment? cs

/-- The tokens of a text. Each step takes a token, a comment or a blank. -/
def tokensFrom? : Nat → List Char → Option (List Token)
  | 0, _ => none
  | _, [] => some []
  | n + 1, c :: cs =>
    if isSpace c then tokensFrom? n cs
    else if isMark c then (tokensFrom? n cs).map (.mark c :: ·)
    else if c = '"' ∨ c = '\'' then do
      let (s, rest) ← body? c (n + 1) cs
      return .str (String.ofList s) :: (← tokensFrom? n rest)
    else if c = '/' then
      match cs with
      | '/' :: cs => tokensFrom? n (cs.dropWhile (!isLineEnd ·))
      | '*' :: cs => do tokensFrom? n (← afterComment? cs)
      | _ => none
    else do
      let more ← tokensFrom? n (cs.dropWhile isWordChar)
      return .word (c :: cs.takeWhile isWordChar) :: more

def tokens? (cs : List Char) : Option (List Token) := tokensFrom? (cs.length + 1) cs

/-- The characters of names: letters and digits of all scripts, and some that join them. -/
def isNameChar (c : Char) : Bool :=
  Text.isAlphanumeric c || c == '$' || c == '_' || c == '\u200c' || c == '\u200d'

/-- The name that a word states, with its escapes read. Each step takes a character. -/
def nameFrom? : Nat → List Char → Option (List Char)
  | 0, _ => none
  | _, [] => some []
  | n + 1, c :: cs =>
    if c = '\\' then
      match cs with
      | 'u' :: cs => do
        let (code, rest) ← Text.fixedHex? 4 cs
        return (← Text.charOf? code) :: (← nameFrom? n rest)
      | _ => none
    else if isNameChar c then (nameFrom? n cs).map (c :: ·)
    else none

/-- The name that a word states. It does not start with a digit. -/
def name? (cs : List Char) : Option String :=
  if cs.head?.any Char.isDigit then none
  else (nameFrom? (cs.length + 1) cs).map String.ofList

end EntityStore.Json5
