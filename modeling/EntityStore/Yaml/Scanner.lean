import EntityStore.Yaml.Scalar

/-! The tokens of a YAML text. -/
namespace EntityStore.Yaml

namespace Scanner

/-- Goes past blanks, line breaks and comments. In a block no tab may stand before its column on a
line with text. -/
def skipGaps : Nat → Scanner → Option Scanner
  | 0, s => some s
  | n + 1, s =>
    if s.next = '\t' ∧ !s.indents.isEmpty ∧ s.lineStart ∧ s.column < s.indentLevel then do
      let (after, _) ← s.skipToLineEnd
      if isLineEnd after.next then skipGaps n after else none
    else if isBlank s.next then skipGaps n s.skipBlank
    else if s.next = '\n' then
      skipGaps n (if s.inFlow then s.skipBreak else s.skipBreak.allowKey)
    else if s.next = '#' then skipGaps n s.skipComment
    else some s

def toToken (s : Scanner) : Option Scanner := skipGaps (s.rest.length + 1) s

/-- Ends all blocks before a document's start, its end or a directive. -/
def leaveBlocks (s : Scanner) : Option Scanner := (s.closeBlocks (-1)).dropKey.map forbidKey

/-- Whether a text is a version: two whole numbers with a point between them. -/
def isVersion (cs : List Char) : Bool :=
  let major := cs.takeWhile Char.isDigit
  match cs.drop major.length with
  | '.' :: minor => !major.isEmpty && !minor.isEmpty && minor.all Char.isDigit
  | _ => false

/-- A directive, up to the end of its line. -/
def directive? (s : Scanner) : Option Scanner := do
  let s ← s.leaveBlocks
  let name := (s.rest.drop 1).takeWhile (!isGap ·)
  if name.isEmpty then none
  else if name = "YAML".toList then
    let (s, _) ← (s.skipMany (name.length + 1)).skipToLineEnd
    let version := s.rest.takeWhile (!isGap ·)
    let (s, _) ← (s.skipMany version.length).skipToLineEnd
    if isVersion version && isLineEnd s.next then return s.push (.directive true) else none
  else return s.skipComment.push (.directive false)

/-- The mark of a document's start or end. Nothing but a comment may stand behind its end. -/
def documentMark? (s : Scanner) : Option Scanner := do
  let isStart := s.next == '-'
  let s := (← s.leaveBlocks).skipMany 3
  if isStart then return s.push .documentStart
  else
    let (s, _) ← (s.push .documentEnd).skipToLineEnd
    if isLineEnd s.next then return s else none

/-- The opening mark of a flow collection, which may be a key. -/
def flowStart? (s : Scanner) (isMapping : Bool) : Option Scanner := do
  let s := s.saveKey.indentMore
  let s := { s with flows := isMapping :: s.flows, keys := none :: s.keys }
  let (s, _) ← s.allowKey.skip.skipToLineEnd
  return s.push (if isMapping then .flowMapping else .flowSequence)

/-- The closing mark of a flow collection. Within another one a colon may follow at once. -/
def flowEnd? (s : Scanner) (isMapping : Bool) : Option Scanner := do
  let s ← s.dropKey
  let s := if s.inFlow then { s with flows := s.flows.drop 1, keys := s.keys.drop 1 } else s
  let (s, _) ← s.forbidKey.skip.skipToLineEnd
  let s := if s.inFlow then { s with adjacent := some s.offset } else s
  return s.push (if isMapping then .flowMappingEnd else .flowSequenceEnd)

def flowEntry? (s : Scanner) : Option Scanner := do
  let (s, _) ← (← s.dropKey).allowKey.skip.skipToLineEnd
  return s.push .flowEntry

/-- The dash of an item in a block. -/
def entry? (s : Scanner) : Option Scanner := do
  if s.inFlow || !s.keyAllowed then none
  else
    let opened := s.skip.openBlock s.column s.tokens.size .blockSequence
    let (after, blanks) ← opened.skipToLineEnd
    if blanks.tabs && after.next == '-' && isGap after.second then none
    else
      let after := if after.next = '\n' ∨ isFlowMark after.next then after.indentMore else after
      return (← after.dropKey).allowKey.push .entry

/-- The mark of a key that need not be simple. -/
def key? (s : Scanner) : Option Scanner := do
  if !s.inFlow && !s.keyAllowed then none
  else
    let opened := s.openBlock s.column s.tokens.size .blockMapping
    let s ← opened.dropKey
    let s := (if s.inFlow then s.forbidKey else s.allowKey).skip.skipSpaces
    if s.next = '\t' then none else return (← s.toToken).push .key

def isWordChar (c : Char) : Bool := c.isAlphanum || c == '_' || c == '-'

/-- Goes past a colon. A tab right behind it may not be all that stands before a word. -/
def skipColon? (s : Scanner) : Option Scanner :=
  let after := s.skip
  if after.next = '\t' then do
    let (after, blanks) ← after.skipToLineEnd
    if !blanks.spaces && isWordChar after.next then none else some after
  else some after

/-- The colon before a value. If the token before it may be a key, it is one, and may start a
mapping. -/
def value? (s : Scanner) : Option Scanner := do
  let after ← s.skipColon?
  match s.keys.head?.join with
  | some p =>
    if s.flows.head? == some false && p.line < s.line then none
    else
      let t := (after.insert p.tokens .key).openBlock p.column p.tokens .blockMapping
      return { t.indentMore with keys := none :: t.keys.drop 1 }.forbidKey.push .value
  | none =>
    if s.inFlow then return after.forbidKey.push .value
    else if !s.keyAllowed then none
    else
      let t := after.openBlock s.column s.tokens.size .blockMapping
      return t.indentMore.allowKey.push .value

/-- A colon in a flow collection without a blank behind it. -/
def flowValue? (s : Scanner) : Option Scanner :=
  if s.adjacent != some s.offset && (s.second == '[' || s.second == '{') then none else s.value?

/-- The name of an anchor or an alias behind its mark. -/
def anchor? (s : Scanner) (isAlias : Bool) : Option Scanner :=
  let s := s.saveKey.forbidKey.skip
  let name := s.rest.takeWhile fun c => !isGap c && !isFlowMark c
  if name.isEmpty then none
  else
    let text := String.ofList name
    some ((s.skipMany name.length).push (if isAlias then .alias text else .anchor text))

def isTagChar (c : Char) : Bool := c.isAlphanum || "-_#;/?:@&=+$.~*'()%".toList.contains c

/-- What a tag between its first mark and the next gap asks for. -/
def tagOf? (cs : List Char) : Option Tag :=
  match cs with
  | '!' :: suffix =>
    if suffix.isEmpty || !suffix.all isTagChar then none
    else some (.core (String.ofList suffix))
  | '<' :: rest => if rest.getLast? = some '>' ∧ 1 < rest.length then some .other else none
  | cs => if cs.all isTagChar then some .other else none

def tag? (s : Scanner) : Option Scanner := do
  let s := s.saveKey.forbidKey.skip
  let isVerbatim := s.next == '<'
  let body := s.rest.takeWhile fun c => !isGap c && (isVerbatim || !(s.inFlow && isFlowMark c))
  let t ← tagOf? body
  return (s.skipMany body.length).push (.tag t)

/-- A scalar in a block. -/
def blockScalar? (s : Scanner) (literal : Bool) : Option Scanner := do
  let (text, s) ← s.saveKey.allowKey.block? literal
  return s.push (.scalar false (String.ofList text))

/-- A scalar in quotes. Within a flow collection a colon may follow at once. -/
def quotedScalar? (s : Scanner) : Option Scanner := do
  let (text, s) ← s.saveKey.forbidKey.quoted?
  let s ← s.toToken
  return { s with adjacent := some s.offset }.push (.scalar false (String.ofList text))

def plainScalar? (s : Scanner) : Option Scanner := do
  let (text, s) ← s.saveKey.forbidKey.plain?
  return s.push (.scalar true (String.ofList text))

def token? (s : Scanner) : Option Scanner :=
  let gap := isGap s.second
  if s.column = 0 ∧ s.next = '%' then s.directive?
  else if s.atDocumentMark then s.documentMark?
  else match s.next with
    | '[' => s.flowStart? false
    | '{' => s.flowStart? true
    | ']' => s.flowEnd? false
    | '}' => s.flowEnd? true
    | ',' => s.flowEntry?
    | '*' => s.anchor? true
    | '&' => s.anchor? false
    | '!' => s.tag?
    | '\'' | '"' => s.quotedScalar?
    | '%' | '@' | '\x60' => none
    | '-' => if gap then s.entry? else s.plainScalar?
    | '?' => if gap then s.key? else s.plainScalar?
    | ':' =>
      if gap then s.value?
      else if s.inFlow && (isFlowMark s.second || s.adjacent == some s.offset) then s.flowValue?
      else s.plainScalar?
    | '|' => if s.inFlow then s.plainScalar? else s.blockScalar? true
    | '>' => if s.inFlow then s.plainScalar? else s.blockScalar? false
    | _ => s.plainScalar?

/-- The tokens at the end of a text. No key may be due, and all blocks end. -/
def finish? (s : Scanner) : Option (List Token) :=
  if s.keys.any fun k => k.any (·.required) then none
  else some (s.closeBlocks (-1)).tokens.toList

/-- Takes tokens up to the end of the text, each step one. -/
def run? : Nat → Scanner → Option (List Token)
  | 0, _ => none
  | n + 1, s => do
    let s ← (← s.toToken).dropStaleKeys
    let s := s.closeBlocks s.column
    if s.next = endMark then s.finish?
    else if s.column < s.indentLevel then none
    else run? n (← s.token?)

end Scanner

/-- A text with every line break written as a line feed, up to the first null character. -/
def lines : List Char → List Char
  | [] => []
  | '\x00' :: _ => []
  | '\r' :: '\n' :: cs => '\n' :: lines cs
  | '\r' :: cs => '\n' :: lines cs
  | c :: cs => c :: lines cs

def tokens? (text : String) : Option (List Token) :=
  let cs := lines text.toList
  Scanner.run? (cs.length + 1) (.start cs)

end EntityStore.Yaml
