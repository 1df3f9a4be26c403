import EntityStore.Text.Split
import EntityStore.Text.Visible

/-! Places in a file tree, and their texts. -/
namespace EntityStore

/-- A place in a file tree: the names from the top down. -/
abbrev Path := List String

namespace Path

/-- The names of a path text. Empty ones come from a slash at either end or beside another. -/
def components (text : String) : List String := (Text.split '/' text.toList).map String.ofList

def isAbsolute (text : String) : Bool := text.toList.head? == some '/'

/-- A path text read from the directory `base`. -/
def join (base text : String) : String :=
  if isAbsolute text then text
  else if base.isEmpty || base.toList.getLast? == some '/' then base ++ text
  else base ++ "/" ++ text

/-- Whether a component is a name. The others stay where they are: empty ones, and single dots. -/
def isName (c : String) : Bool := c != "" && c != "."

def names (text : String) : List String := (components text).filter isName

/-- The components of a path text without the slashes at its end. -/
def withoutEndSlashes (cs : List String) : List String :=
  (cs.reverse.dropWhile (· == "")).reverse

/-- The names that lead to the directories above a place, the nearest first. -/
def above (ns : List String) : List (List String) :=
  ((List.range ns.length).drop 1).reverse.map ns.take

/-- How a character of a path stands in a message. -/
def escape (c : Char) : List Char :=
  if c = '"' ∨ c = '\\' then ['\\', c]
  else if c = '\n' then ['\\', 'n']
  else if c = '\r' then ['\\', 'r']
  else if c = '\t' then ['\\', 't']
  else if c = '\x00' then ['\\', '0']
  else if Text.isVisible c then [c]
  else '\\' :: 'u' :: '{' :: (Nat.toDigits 16 c.toNat ++ ['}'])

/-- A path text in quotes. -/
def quoted (text : String) : String :=
  String.ofList ('"' :: (text.toList.flatMap escape ++ ['"']))

end Path

end EntityStore
