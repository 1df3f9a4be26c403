import EntityStore.Yaml.Token

/-! Scalars of YAML documents: plain, in quotes, and in blocks. -/
namespace EntityStore.Yaml.Scanner

/-- What stands between two pieces of a scalar: blanks on a line, or line breaks. -/
inductive Gap
  | blanks (chars : List Char)
  | breaks (count : Nat)

/-- How a gap is read: blanks as they are, one line break as a space, and of more the first as
nothing. -/
def Gap.text : Gap → List Char
  | .blanks cs => cs
  | .breaks 0 => []
  | .breaks 1 => [' ']
  | .breaks (n + 1) => List.replicate n '\n'

def Gap.isBroken : Gap → Bool
  | .blanks _ => false
  | .breaks _ => true

/-- A gap with one more blank. At the start of a line it counts for nothing. -/
def Gap.addBlank : Gap → Char → Gap
  | .blanks cs, c => .blanks (cs ++ [c])
  | .breaks n, _ => .breaks n

def Gap.addBreak : Gap → Gap
  | .blanks _ => .breaks 1
  | .breaks n => .breaks (n + 1)

/-! Plain scalars. -/

/-- Whether the next character may stand in a plain scalar. -/
def mayBePlain (s : Scanner) : Bool :=
  let c := s.next
  if c == ':' then !(isGap s.second || (s.inFlow && isFlowMark s.second))
  else !(isGap c || (s.inFlow && isFlowMark c))

/-- The characters of a plain scalar up to a gap or its end. -/
def plainPiece : Nat → Scanner → List Char × Scanner
  | 0, s => ([], s)
  | n + 1, s =>
    if s.mayBePlain then
      let (cs, after) := plainPiece n s.skip
      (s.next :: cs, after)
    else ([], s)

/-- The gap behind a piece of a plain scalar. No tab may stand before the column `indent` on a line
with text. -/
def plainGap? (indent : Int) : Nat → Gap → Scanner → Option (Gap × Scanner)
  | 0, gap, s => some (gap, s)
  | n + 1, gap, s =>
    if s.next = '\n' then plainGap? indent n gap.addBreak s.skipBreak
    else if isBlank s.next then
      if gap.isBroken ∧ s.next = '\t' ∧ (s.column : Int) < indent then do
        let (after, _) ← s.skipToLineEnd
        if isLineEnd after.next then plainGap? indent n gap after else none
      else plainGap? indent n (gap.addBlank s.next) s.skipBlank
    else some (gap, s)

/-- A plain scalar whose lines stand at the column `indent` or further in, behind a gap. -/
def plainFrom? (indent : Int) : Nat → Gap → Scanner → Option (List Char × Scanner)
  | 0, _, s => some ([], s)
  | n + 1, gap, s =>
    if s.atDocumentMark || s.next == '#' then some ([], s)
    else if s.inFlow && s.next == '-' && isFlowMark s.second then none
    else if !s.mayBePlain then some ([], s)
    else do
      let (piece, s) := plainPiece s.rest.length s
      if s.next = '\n' ∨ isBlank s.next then
        let (next, s) ← plainGap? indent s.rest.length (.blanks []) s
        if !s.inFlow && s.column < indent then some (gap.text ++ piece, s)
        else
          let (more, s) ← plainFrom? indent n next s
          return (gap.text ++ piece ++ more, s)
      else some (gap.text ++ piece, s)

/-- A plain scalar. A key may follow it on a line of its own. -/
def plain? (s : Scanner) : Option (List Char × Scanner) := do
  let s := s.dropLooseIndents
  let indent := s.indentLevel + 1
  if s.inFlow && s.column < indent then none
  else
    let (text, s) ← plainFrom? indent (s.rest.length + 1) (.blanks []) s
    return (text, if s.lineStart then s.allowKey else s)

/-! Scalars in quotes. -/

/-- The character that an escape stands for behind its backslash, and the length of the escape. -/
def escape? (cs : List Char) : Option (Char × Nat) :=
  let coded (n : Nat) : Option (Char × Nat) := do
    let (code, _) ← Text.fixedHex? n (cs.drop 1)
    return (← Text.charOf? code, n + 1)
  match cs with
  | [] => none
  | '0' :: _ => some ('\x00', 1)
  | 'a' :: _ => some ('\x07', 1)
  | 'b' :: _ => some ('\x08', 1)
  | 't' :: _ | '\t' :: _ => some ('\t', 1)
  | 'n' :: _ => some ('\n', 1)
  | 'v' :: _ => some ('\x0b', 1)
  | 'f' :: _ => some ('\x0c', 1)
  | 'r' :: _ => some ('\r', 1)
  | 'e' :: _ => some ('\x1b', 1)
  | 'N' :: _ => some ('\u0085', 1)
  | '_' :: _ => some ('\u00a0', 1)
  | 'L' :: _ => some ('\u2028', 1)
  | 'P' :: _ => some ('\u2029', 1)
  | 'x' :: _ => coded 2
  | 'u' :: _ => coded 4
  | 'U' :: _ => coded 8
  | c :: _ => if c == ' ' || c == '"' || c == '/' || c == '\\' then some (c, 1) else none

/-- The characters of a scalar between the quotes `q` up to a gap or the last quote. The gap is told
too if it starts with an escaped line break, which stands for nothing. -/
def quotedPiece? (q : Char) : Nat → Scanner → Option (List Char × Gap × Scanner)
  | 0, _ => none
  | n + 1, s =>
    let c := s.next
    if isGap c then some ([], .blanks [], s)
    else if c = '\'' ∧ q = '\'' ∧ s.second = '\'' then do
      let (more, gap, s) ← quotedPiece? q n (s.skipMany 2)
      return ('\'' :: more, gap, s)
    else if c = q then some ([], .blanks [], s)
    else if c = '\\' ∧ q = '"' then
      if s.second = '\n' then some ([], .breaks 0, s.skip.skipBreak)
      else do
        let (c, length) ← escape? (s.rest.drop 1)
        let (more, gap, s) ← quotedPiece? q n (s.skipMany (length + 1))
        return (c :: more, gap, s)
    else do
      let (more, gap, s) ← quotedPiece? q n s.skip
      return (c :: more, gap, s)

/-- The gap behind a piece of a scalar in quotes. -/
def quotedGap? : Nat → Gap → Scanner → Option (Gap × Scanner)
  | 0, gap, s => some (gap, s)
  | n + 1, gap, s =>
    if s.next = '\n' then
      let gap := match gap with
        | .breaks 0 => Gap.breaks 2
        | gap => gap.addBreak
      quotedGap? n gap s.skipBreak
    else if isBlank s.next then
      if gap.isBroken ∧ s.next = '\t' ∧ (s.column : Int) < s.indentLevel then none
      else quotedGap? n (gap.addBlank s.next) s.skipBlank
    else some (gap, s)

/-- A scalar between the quotes `q`, from behind the first one to behind the last one. Its lines
stand as far in as the block around it. -/
def quotedFrom? (q : Char) : Nat → Scanner → Option (List Char × Scanner)
  | 0, _ => none
  | n + 1, s =>
    if s.atDocumentMark || s.next == endMark || s.column < s.indentLevel then none
    else do
      let (piece, gap, s) ← quotedPiece? q (s.rest.length + 1) s
      if s.next = q then some (piece, s.skip)
      else
        let (gap, s) ← quotedGap? s.rest.length gap s
        let (more, s) ← quotedFrom? q n s
        return (piece ++ gap.text ++ more, s)

/-- Whether what follows a scalar in quotes may: the end of the line, a mark of the flow collection,
or a colon, which outside of those stands on the line where the scalar starts. -/
def mayFollowQuoted (s : Scanner) (line : Nat) : Bool :=
  let c := s.next
  isLineEnd c || (s.inFlow && (c == ',' || c == '}' || c == ']' || c == ':'))
    || (c == ':' && line == s.line)

/-- A scalar in quotes. -/
def quoted? (s : Scanner) : Option (List Char × Scanner) := do
  let (text, after) ← quotedFrom? s.next (s.rest.length + 1) s.skip
  let (after, _) ← after.skipToLineEnd
  if after.mayFollowQuoted s.line then return (text, after) else none

/-! Scalars in blocks. -/

/-- What becomes of the line breaks at the end of a scalar in a block: none is kept, one, or all. -/
inductive Chomping
  | strip
  | clip
  | keep
deriving DecidableEq, Repr

def chomping? (c : Char) : Option Chomping :=
  if c == '+' then some .keep else if c == '-' then some .strip else none

/-- An indentation of one digit, if there is one, none if it is zero. -/
def indentation? (s : Scanner) : Option (Nat × Scanner) :=
  if s.next.isDigit then
    if s.next = '0' then none else some (s.next.toNat - '0'.toNat, s.skip)
  else some (0, s)

/-- The marks behind the one that starts a scalar in a block, in either order. -/
def blockHeader? (s : Scanner) : Option (Chomping × Nat × Scanner) :=
  match chomping? s.next with
  | some chomping => do
    let (n, s) ← s.skip.indentation?
    return (chomping, n, s)
  | none => do
    let (n, s) ← s.indentation?
    if n = 0 then return (.clip, 0, s)
    else match chomping? s.next with
      | some chomping => return (chomping, n, s.skip)
      | none => return (.clip, n, s)

/-- Goes past empty lines and spaces before the column `indent`; tells the count of lines. -/
def skipIndent (indent : Nat) : Nat → Scanner → Nat × Scanner
  | 0, s => (0, s)
  | n + 1, s =>
    let spaces := min (indent - s.column) (s.rest.takeWhile (· == ' ')).length
    let s := { s with rest := s.rest.drop spaces, column := s.column + spaces,
                      offset := s.offset + spaces }
    if s.next = '\n' then
      let (breaks, s) := skipIndent indent n s.skipBreak
      (breaks + 1, s)
    else (0, s)

/-- Goes past empty lines up to the first text; tells the count of lines and the greatest column. -/
def findIndent : Nat → Nat → Scanner → Nat × Nat × Scanner
  | 0, column, s => (0, column, s)
  | n + 1, column, s =>
    let s := s.skipSpaces
    let column := max column s.column
    if s.next = '\n' then
      let (breaks, column, s) := findIndent n column s.skipBreak
      (breaks + 1, column, s)
    else (0, column, s)

/-- The lines of a scalar in a block at the column `indent`. Before the first of them stand `breaks`
line breaks, behind it `ended` tells whether a line is before it, and `spaced` whether that line
starts with a blank. In a folded scalar a break between two lines that do not is read as a space. -/
def blockLines (literal : Bool) (indent : Nat) :
    Nat → Bool → Bool → Nat → Scanner → List Char × Bool × Nat × Scanner
  | 0, ended, _, breaks, s => ([], ended, breaks, s)
  | n + 1, ended, spaced, breaks, s =>
    if s.column ≠ indent ∨ s.next = endMark ∨ (indent = 0 ∧ s.atDocumentMark) then
      ([], ended, breaks, s)
    else
      let spacedHere := isBlank s.next
      let before :=
        if !literal && ended && !spaced && !spacedHere then
          if breaks = 0 then [' '] else List.replicate breaks '\n'
        else List.replicate (breaks + if ended then 1 else 0) '\n'
      let line := s.rest.takeWhile (!isLineEnd ·)
      let s := s.skipMany line.length
      if s.next = endMark then (before ++ line, false, 0, s)
      else
        let (breaks, s) := skipIndent indent (s.rest.length + 1) s.skipBreak
        let (more, rest) := blockLines literal indent n true spacedHere breaks s
        (before ++ line ++ more, rest)

/-- A scalar in a block, literal or folded. -/
def block? (literal : Bool) (s : Scanner) : Option (List Char × Scanner) := do
  let line := s.line
  let (chomping, increment, s) ← s.skip.dropLooseIndents.blockHeader?
  let (s, _) ← s.skipToLineEnd
  if !isLineEnd s.next then none
  else
    let s := if s.next = '\n' then s.skipBreak else s
    if s.next = '\t' then none
    else
      let (breaks, indent, s) :=
        if increment = 0 then
          let (breaks, column, s) := findIndent (s.rest.length + 1) 0 s
          (breaks, max column (s.indentLevel + 1).toNat, s)
        else
          let indent := increment + s.indentLevel.toNat
          let (breaks, s) := skipIndent indent (s.rest.length + 1) s
          (breaks, indent, s)
      if s.next = endMark then
        let text := match chomping with
          | .strip => []
          | .clip => if s.line = line then [] else ['\n']
          | .keep => if s.line = line then [] else List.replicate (max breaks 1) '\n'
        return (text, s)
      else if s.column < indent ∧ s.indentLevel < s.column then none
      else
        let (text, ended, breaks, s) :=
          blockLines literal indent (s.rest.length + 1) false false breaks s
        let last := s.next == endMark && max indent 1 ≤ s.column
        let breaks := match chomping with
          | .strip => 0
          | .clip => (if ended then 1 else 0) + (if last then 1 else 0)
          | .keep => (if ended then 1 else 0) + (if last then 1 else 0) + breaks
        return (text ++ List.replicate breaks '\n', s)

end EntityStore.Yaml.Scanner
