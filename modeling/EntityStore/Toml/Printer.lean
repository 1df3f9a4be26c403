import EntityStore.Text.Hexadecimal

/-! Strings of TOML, each in the first of its forms that holds the text as it is. -/
namespace EntityStore.Toml

/-- The forms of a string. Between double quotes a backslash begins an escape; three quotes on
either side hold line breaks. -/
inductive Form
  | basic
  | literal
  | basicBlock
  | literalBlock
deriving DecidableEq, Repr

/-- Whether at most `limit` characters `q` stand in a row, after `run` of them. -/
def runsWithin (q : Char) (limit run : Nat) : List Char → Bool
  | [] => true
  | c :: cs =>
    if c = q then run < limit && runsWithin q limit (run + 1) cs else runsWithin q limit 0 cs

/-- Control characters apart from tab and line feed. -/
def isControl (c : Char) : Bool :=
  (c.toNat < 0x20 && c != '\t' && c != '\n') || c.toNat == 0x7F

/-- The form of a text: one that needs no escape but that of a tab, if there is one. -/
def Form.of (cs : List Char) : Form :=
  let plain := !cs.any isControl
  let lines := cs.contains '\n'
  let slashes := cs.contains '\\'
  if plain && !lines && !slashes && !cs.contains '"' then .basic
  else if plain && !lines && !cs.contains '\'' then .literal
  else if plain && !slashes && runsWithin '"' 2 0 cs then .basicBlock
  else if plain && runsWithin '\'' 2 0 cs then .literalBlock
  else if lines then .basicBlock
  else .basic

/-- How a character other than a quote stands between double quotes. -/
def escape (c : Char) : List Char :=
  if c = '\\' then ['\\', '\\']
  else if c = '\x08' then ['\\', 'b']
  else if c = '\t' then ['\\', 't']
  else if c = '\n' then ['\\', 'n']
  else if c = '\x0c' then ['\\', 'f']
  else if c = '\r' then ['\\', 'r']
  else if c.toNat < 0x20 ∨ c.toNat = 0x7F then
    '\\' :: 'u' :: (Text.hexUnit c.toNat).map Char.toUpper
  else [c]

/-- A text between double quotes, after `run` quotes. In a block two quotes in a row and line breaks
stand for themselves. -/
def escapeAll (block : Bool) (run : Nat) : List Char → List Char
  | [] => []
  | c :: cs =>
    if c = '"' then
      if block && run < 2 then '"' :: escapeAll block (run + 1) cs
      else '\\' :: '"' :: escapeAll block 0 cs
    else if block && c == '\n' then '\n' :: escapeAll block 0 cs
    else escape c ++ escapeAll block 0 cs

/-- The line feed after the quotes that open a block: it is there if the text has any. -/
def opening (cs : List Char) : List Char := if cs.contains '\n' then ['\n'] else []

/-- A string with its quotes. -/
def quoted (cs : List Char) : List Char :=
  match Form.of cs with
  | .basic => '"' :: (escapeAll false 0 cs ++ ['"'])
  | .literal => '\'' :: (cs ++ ['\''])
  | .basicBlock =>
    let delimiter := List.replicate 3 '"'
    delimiter ++ opening cs ++ escapeAll true 0 cs ++ delimiter
  | .literalBlock =>
    let delimiter := List.replicate 3 '\''
    delimiter ++ opening cs ++ cs ++ delimiter

end EntityStore.Toml
