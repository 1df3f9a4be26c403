import EntityStore.Text.CodePoint
import EntityStore.Text.Hexadecimal

/-! Tokens of YAML documents. Where a block starts or ends by its indentation there is a token too.
-/
namespace EntityStore.Yaml

/-- What a tag asks for: one of the core types, by name, or anything else. -/
inductive Tag
  | core (name : String)
  | other
deriving DecidableEq, Repr

inductive Token
  | directive (version : Bool)
  | documentStart
  | documentEnd
  | blockSequence
  | blockMapping
  | blockEnd
  | flowSequence
  | flowSequenceEnd
  | flowMapping
  | flowMappingEnd
  | entry
  | flowEntry
  | key
  | value
  | anchor (name : String)
  | alias (name : String)
  | tag (t : Tag)
  | scalar (plain : Bool) (text : String)
deriving DecidableEq, Repr

/-- A place where a token may turn out to be a key: the count of tokens before it, its line, column
and offset, and whether nothing else may stand there. -/
structure KeyPlace where
  tokens : Nat
  line : Nat
  column : Nat
  offset : Nat
  required : Bool

/-- The indentation before a block, or before contents that only have to stand further in. -/
structure Indent where
  column : Int
  isBlock : Bool

/-- A scanner: the text ahead, the place in it, and the tokens so far. `indentLevel` is the column
of the innermost block, -1 outside blocks, and `indents` are the ones around it. `flows` are the
open flow collections, true for mappings. `keys` has the place of a possible key for each of them
and for the block around them. Next to a quoted scalar or a flow collection, at `adjacent`, a colon
needs no blank behind it. `lineStart` holds while a line has had only blanks. -/
structure Scanner where
  rest : List Char
  line : Nat
  column : Nat
  offset : Nat
  lineStart : Bool
  tokens : Array Token
  indentLevel : Int
  indents : List Indent
  flows : List Bool
  keys : List (Option KeyPlace)
  keyAllowed : Bool
  adjacent : Option Nat

namespace Scanner

def start (cs : List Char) : Scanner where
  rest := cs
  line := 0
  column := 0
  offset := 0
  lineStart := true
  tokens := #[]
  indentLevel := -1
  indents := []
  flows := []
  keys := [none]
  keyAllowed := true
  adjacent := none

/-- The character of the end of a text. -/
def endMark : Char := '\x00'

/-- The next character, or the end mark. -/
def next (s : Scanner) : Char := s.rest.headD endMark

/-- The character behind the next one, or the end mark. -/
def second (s : Scanner) : Char := (s.rest.drop 1).headD endMark

def isBlank (c : Char) : Bool := c == ' ' || c == '\t'

def isLineEnd (c : Char) : Bool := c == '\n' || c == endMark

def isGap (c : Char) : Bool := isBlank c || isLineEnd c

/-- The marks of flow collections. -/
def isFlowMark (c : Char) : Bool :=
  c == ',' || c == '[' || c == ']' || c == '{' || c == '}'

def inFlow (s : Scanner) : Bool := !s.flows.isEmpty

def skipBlank (s : Scanner) : Scanner :=
  { s with rest := s.rest.drop 1, column := s.column + 1, offset := s.offset + 1 }

def skip (s : Scanner) : Scanner := { s.skipBlank with lineStart := false }

def skipMany (n : Nat) (s : Scanner) : Scanner :=
  { s with
    rest := s.rest.drop n, column := s.column + n, offset := s.offset + n, lineStart := false }

def skipBreak (s : Scanner) : Scanner :=
  { s with rest := s.rest.drop 1, line := s.line + 1, column := 0, offset := s.offset + 1,
           lineStart := true }

/-- Goes past the characters of a class at the place. -/
def skipWhile (p : Char → Bool) (s : Scanner) : Scanner :=
  let n := (s.rest.takeWhile p).length
  if n = 0 then s else s.skipMany n

def skipComment (s : Scanner) : Scanner := s.skipWhile (!isLineEnd ·)

def skipSpaces (s : Scanner) : Scanner :=
  let n := (s.rest.takeWhile (· == ' ')).length
  { s with rest := s.rest.drop n, column := s.column + n, offset := s.offset + n }

/-- Whether there were tabs, and whether there were spaces. -/
structure Blanks where
  tabs : Bool
  spaces : Bool

/-- Goes past the blanks before more text or the end of the line, and past a comment, which needs a
blank before it. -/
def skipToLineEnd (s : Scanner) : Option (Scanner × Blanks) :=
  let blanks := s.rest.takeWhile isBlank
  let n := blanks.length
  let after := { s with rest := s.rest.drop n, column := s.column + n, offset := s.offset + n }
  let found : Blanks := ⟨blanks.contains '\t', blanks.contains ' '⟩
  if after.next = '#' then if n = 0 then none else some (after.skipComment, found)
  else some (after, found)

def push (s : Scanner) (t : Token) : Scanner := { s with tokens := s.tokens.push t }

/-- Adds a token in front of those from the place `n` on. -/
def insert (s : Scanner) (n : Nat) (t : Token) : Scanner :=
  { s with tokens := s.tokens.extract 0 n ++ #[t] ++ s.tokens.extract n s.tokens.size }

def allowKey (s : Scanner) : Scanner := { s with keyAllowed := true }

def forbidKey (s : Scanner) : Scanner := { s with keyAllowed := false }

/-- Notes that the next token may be a key, where one is allowed. -/
def saveKey (s : Scanner) : Scanner :=
  if s.keyAllowed then
    let required := !s.inFlow && s.indentLevel == s.column && s.indents.head?.any (·.isBlock)
    let place : KeyPlace := ⟨s.tokens.size, s.line, s.column, s.offset, required⟩
    { s with keys := some place :: s.keys.drop 1 }
  else s

/-- Drops the possible key of the innermost collection, unless it has to be one. -/
def dropKey (s : Scanner) : Option Scanner :=
  if s.keys.head?.join.any (·.required) then none
  else some { s with keys := none :: s.keys.drop 1 }

/-- A key in a block stands on one line, with at most this many characters up to its colon. -/
def maxKey : Nat := 1024

/-- Drops the possible keys that have come too far, unless one has to be a key. -/
def dropStaleKeys (s : Scanner) : Option Scanner :=
  if s.inFlow then some s
  else
    let isStale (p : KeyPlace) := p.line < s.line || p.offset + maxKey < s.offset
    if s.keys.any fun k => k.any fun p => isStale p && p.required then none
    else some { s with keys := s.keys.map (·.filter (!isStale ·)) }

/-- Forgets the innermost indent if it starts no block. -/
def dropLooseIndent (s : Scanner) : Scanner :=
  match s.indents with
  | i :: outer => if i.isBlock then s else { s with indentLevel := i.column, indents := outer }
  | [] => s

/-- Forgets indents that start no block, of those given. -/
def dropLooseIndentsFrom : List Indent → Scanner → Scanner
  | [], s => s
  | i :: outer, s =>
    if i.isBlock then s
    else dropLooseIndentsFrom outer { s with indentLevel := i.column, indents := outer }

/-- Forgets the inner indents that start no block. -/
def dropLooseIndents (s : Scanner) : Scanner := dropLooseIndentsFrom s.indents s

/-- Starts a block at a column that stands further in than the block around it. The token goes in
front of those from the place `n` on. -/
def openBlock (s : Scanner) (column : Int) (n : Nat) (t : Token) : Scanner :=
  if s.inFlow then s
  else
    let s := if s.indentLevel ≤ column then s.dropLooseIndent else s
    if s.indentLevel < column then
      { s with indentLevel := column, indents := ⟨s.indentLevel, true⟩ :: s.indents }.insert n t
    else s

/-- Asks for contents at least one column further in. -/
def indentMore (s : Scanner) : Scanner :=
  if !s.inFlow && s.indents.head?.any (·.isBlock) then
    { s with indentLevel := s.indentLevel + 1, indents := ⟨s.indentLevel, false⟩ :: s.indents }
  else s

/-- Ends the blocks that stand further in than a column, given the indents. -/
def closeBlocksFrom (column : Int) : List Indent → Scanner → Scanner
  | [], s => s
  | i :: outer, s =>
    if column < s.indentLevel then
      let s := { s with indentLevel := i.column, indents := outer }
      closeBlocksFrom column outer (if i.isBlock then s.push .blockEnd else s)
    else s

/-- Ends the blocks that stand further in than a column. -/
def closeBlocks (s : Scanner) (column : Int) : Scanner :=
  if s.inFlow then s else closeBlocksFrom column s.indents s

/-- Whether the mark of a document's start or end stands here. -/
def atDocumentMark (s : Scanner) : Bool :=
  s.column == 0 && isGap ((s.rest.drop 3).headD endMark)
    && (s.rest.take 3 == ['-', '-', '-'] || s.rest.take 3 == ['.', '.', '.'])

end Scanner

end EntityStore.Yaml
