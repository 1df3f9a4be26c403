import EntityStore.Json.Basic
import EntityStore.Number.Decimal
import EntityStore.Text.Hexadecimal

/-! JSON texts, compact and indented. -/
namespace EntityStore.Json

def escape (c : Char) : List Char :=
  if c = '"' then ['\\', '"']
  else if c = '\\' then ['\\', '\\']
  else if c = '\x08' then ['\\', 'b']
  else if c = '\x0c' then ['\\', 'f']
  else if c = '\n' then ['\\', 'n']
  else if c = '\r' then ['\\', 'r']
  else if c = '\t' then ['\\', 't']
  else if c.toNat < 0x20 then '\\' :: 'u' :: Text.hexUnit c.toNat
  else [c]

def quoted (s : String) : List Char := '"' :: (s.toList.flatMap escape ++ ['"'])

/-- The text of a float; infinity and NaN have none of their own. -/
def floatText (x : Binary64) : List Char :=
  if x.isFinite then Decimal.numeral x else "null".toList

/-- The layout of arrays and objects: what ends a line at a depth, and what follows a colon. -/
structure Layout where
  lineBreak : Nat → List Char
  afterColon : List Char

def Layout.compact : Layout := ⟨fun _ => [], []⟩

def Layout.pretty : Layout := ⟨fun depth => '\n' :: List.replicate (2 * depth) ' ', [' ']⟩

mutual

/-- The text of a value that stands at a depth. -/
def write (l : Layout) (depth : Nat) : Json → List Char
  | null => "null".toList
  | bool true => "true".toList
  | bool false => "false".toList
  | int n => Decimal.ofInt n
  | float x => floatText x
  | str s => quoted s
  | arr [] => ['[', ']']
  | arr (x :: xs) =>
    '[' :: (l.lineBreak (depth + 1) ++ write l (depth + 1) x ++ writeItems l (depth + 1) xs
      ++ l.lineBreak depth ++ [']'])
  | obj [] => ['{', '}']
  | obj ((k, x) :: xs) =>
    '{' :: (l.lineBreak (depth + 1) ++ quoted k ++ ':' :: l.afterColon ++ write l (depth + 1) x
      ++ writeMembers l (depth + 1) xs ++ l.lineBreak depth ++ ['}'])

def writeItems (l : Layout) (depth : Nat) : List Json → List Char
  | [] => []
  | x :: xs => ',' :: (l.lineBreak depth ++ write l depth x ++ writeItems l depth xs)

def writeMembers (l : Layout) (depth : Nat) : List (String × Json) → List Char
  | [] => []
  | (k, x) :: xs =>
    ',' :: (l.lineBreak depth ++ quoted k ++ ':' :: l.afterColon ++ write l depth x
      ++ writeMembers l depth xs)

end

def compact (j : Json) : String := String.ofList (write .compact 0 j)

/-- The text on several lines, two spaces to a level. -/
def pretty (j : Json) : String := String.ofList (write .pretty 0 j)

end EntityStore.Json
