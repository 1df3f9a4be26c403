import EntityStore.Json.Basic
import EntityStore.Number.Numeral
import EntityStore.Settings.Layer

/-! The layer of environment variables: `CYBERDEM__SECTION__KEY`, in any letter case. -/
namespace EntityStore.Settings

/-- What the names of variables start with, in small letters. -/
def variableStart : List Char := "cyberdem__".toList

/-- A name with a dot for each pair of underscores. -/
def dotted : List Char → List Char
  | [] => []
  | '_' :: '_' :: cs => '.' :: dotted cs
  | c :: cs => c :: dotted cs

/-- The key of a variable; others than those of the program have none. -/
def variableKey? (name : String) : Option String :=
  let cs := Text.folded name
  if variableStart.isPrefixOf cs then
    some (String.ofList (dotted (cs.drop variableStart.length)))
  else none

/-- The value of a variable: a truth value, a 64-bit integer, a float or a text, whichever can be
read first. -/
def variableValue (text : String) : Json :=
  if Text.sameFolded text "true" then .bool true
  else if Text.sameFolded text "false" then .bool false
  else match (Numeral.integer? text.toList).bind Numeral.int64? with
    | some n => .int n.toInt
    | none => match Numeral.binary64? text.toList with
      | some x => .float x
      | none => .str text

/-- The layer of some variables. -/
def variableLayer (environment : List (String × String)) : List (String × Json) :=
  environment.filterMap fun (name, text) => (variableKey? name).map (·, variableValue text)

end EntityStore.Settings
