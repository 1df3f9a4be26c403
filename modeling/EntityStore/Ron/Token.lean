import EntityStore.Text.CodePoint
import EntityStore.Text.Hexadecimal

/-! Tokens of RON texts. -/
namespace EntityStore.Ron

/-- A token: a mark of the syntax, an opening bracket with the closing one right behind it, a name,
a number, or a string. A character counts as a string. -/
inductive Token
  | mark (c : Char)
  | unit
  | name (s : String)
  | number (chars : List Char)
  | str (s : String)
deriving DecidableEq, Repr

def isSpace (c : Char) : Bool := c == ' ' || c == '\n' || c == '\t' || c == '\r'

def isMark (c : Char) : Bool := "()[]\x7b\x7d,:#!".toList.contains c

def isAsciiLetter (c : Char) : Bool := c.isAlpha || c == '_'

def isNameChar (c : Char) : Bool := c.isAlphanum || c == '_'

/-- The characters of names behind `r#`. -/
def isRawNameChar (c : Char) : Bool := isNameChar c || c == '.' || c == '+' || c == '-'

/-- What follows a comment up to the marks that close it. Comments may stand in one another. -/
def afterComment? : Nat → List Char → Option (List Char)
  | _, [] => none
  | 0, '*' :: '/' :: cs => some cs
  | depth + 1, '*' :: '/' :: cs => afterComment? depth cs
  | depth, '/' :: '*' :: cs => afterComment? (depth + 1) cs
  | depth, _ :: cs => afterComment? depth cs

/-- The character of one to six hexadecimal digits and a closing brace, and the rest. -/
def bracedEscape? (cs : List Char) : Option (Char × List Char) := do
  let ds := cs.takeWhile (· != '\x7d')
  if ds.isEmpty || 6 < ds.length then none
  else do
    let (code, rest) ← Text.fixedHex? ds.length cs
    let c ← Text.charOf? code
    if rest.isEmpty then none else return (c, rest.drop 1)

/-- The character that an escape stands for behind its backslash, and the rest. -/
def escape? : List Char → Option (Char × List Char)
  | '\'' :: cs => some ('\'', cs)
  | '"' :: cs => some ('"', cs)
  | '\\' :: cs => some ('\\', cs)
  | 'n' :: cs => some ('\n', cs)
  | 'r' :: cs => some ('\r', cs)
  | 't' :: cs => some ('\t', cs)
  | '0' :: cs => some ('\x00', cs)
  | 'x' :: cs => (Text.fixedHex? 2 cs).map fun (code, rest) => (Char.ofNat code, rest)
  | 'u' :: '{' :: cs => bracedEscape? cs
  | _ => none

/-- A string up to the quote that ends it, and the rest. Each step takes a character. -/
def body? : Nat → List Char → Option (List Char × List Char)
  | 0, _ => none
  | _, [] => none
  | n + 1, c :: cs =>
    if c = '"' then some ([], cs)
    else do
      let (c, rest) ← if c = '\\' then escape? cs else some (c, cs)
      let (more, rest) ← body? n rest
      return (c :: more, rest)

/-- A string up to a quote with `hashes` number signs behind it, and the rest. -/
def rawBody? (hashes : List Char) : List Char → Option (List Char × List Char)
  | [] => none
  | c :: cs =>
    if c = '"' ∧ hashes.isPrefixOf cs then some ([], cs.drop hashes.length)
    else (rawBody? hashes cs).map fun (more, rest) => (c :: more, rest)

/-- A string or a name behind the letter `r`, if it has a quote or a number sign behind it. -/
def raw? (cs : List Char) : Option (Token × List Char) :=
  let hashes := cs.takeWhile (· == '#')
  match hashes, cs.drop hashes.length with
  | _, '"' :: cs => (rawBody? hashes cs).map fun (s, rest) => (.str (String.ofList s), rest)
  | ['#'], cs =>
    let name := cs.takeWhile isRawNameChar
    if name.isEmpty then none else some (.name (String.ofList name), cs.drop name.length)
  | _, _ => none

/-- A character between single quotes, and the rest. -/
def char? (cs : List Char) : Option (Char × List Char) := do
  let (c, rest) ← match cs with
    | '\\' :: cs => escape? cs
    | c :: cs => some (c, cs)
    | [] => none
  match rest with
  | '\'' :: rest => some (c, rest)
  | _ => none

/-- The tokens of a text. Each step takes a token, a comment or a blank. -/
def tokensFrom? : Nat → List Char → Option (List Token)
  | 0, _ => none
  | _, [] => some []
  | n + 1, c :: cs =>
    if isSpace c then tokensFrom? n cs
    else if c = '(' ∧ cs.head? = some ')' then (tokensFrom? n (cs.drop 1)).map (.unit :: ·)
    else if isMark c then (tokensFrom? n cs).map (.mark c :: ·)
    else if c = '"' then do
      let (s, rest) ← body? (n + 1) cs
      return .str (String.ofList s) :: (← tokensFrom? n rest)
    else if c = '\'' then do
      let (c, rest) ← char? cs
      return .str (String.ofList [c]) :: (← tokensFrom? n rest)
    else if c = 'r' ∧ (cs.head? = some '"' ∨ cs.head? = some '#') then do
      let (t, rest) ← raw? cs
      return t :: (← tokensFrom? n rest)
    else if isAsciiLetter c then do
      let more ← tokensFrom? n (cs.dropWhile isNameChar)
      return .name (String.ofList (c :: cs.takeWhile isNameChar)) :: more
    else if isRawNameChar c then do
      let more ← tokensFrom? n (cs.dropWhile isRawNameChar)
      return .number (c :: cs.takeWhile isRawNameChar) :: more
    else match c, cs with
      | '/', '/' :: cs => tokensFrom? n (cs.dropWhile (· != '\n'))
      | '/', '*' :: cs => do tokensFrom? n (← afterComment? 0 cs)
      | _, _ => none

def tokens? (cs : List Char) : Option (List Token) := tokensFrom? (cs.length + 1) cs

end EntityStore.Ron
