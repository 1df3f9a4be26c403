import EntityStore.Schema.Enumeration

/-! Declarations of attributes. -/
namespace EntityStore

/-- The type of an attribute. Timestamps are UTC instants, and durations have whole milliseconds. -/
inductive AttributeType
  | string
  | boolean
  | integer
  | float
  | timestamp
  | duration
  | list
  | stringList
  | mapping
  | option (e : Enumeration)
  | optionList (e : Enumeration)
deriving DecidableEq, Repr

/-- How validation errors name a type. -/
def AttributeType.describe : AttributeType → String
  | .string => "string"
  | .boolean => "boolean"
  | .integer => "integer"
  | .float => "float"
  | .timestamp => "timestamp"
  | .duration => "duration"
  | .list => "list"
  | .stringList => "list of strings"
  | .mapping => "mapping"
  | .option e => "one of " ++ e.name
  | .optionList e => "list of " ++ e.name

structure Attribute where
  name : String
  type : AttributeType
  required : Bool
deriving DecidableEq, Repr

/-- Adds the declarations whose names are not taken yet. -/
def Attribute.extend (known new : List Attribute) : List Attribute :=
  new.foldl (fun acc a => if acc.any (·.name == a.name) then acc else acc ++ [a]) known

end EntityStore
