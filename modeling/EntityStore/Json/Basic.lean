import EntityStore.Assoc
import EntityStore.Number.Binary64

/-! JSON values. Members of an object are sorted by key, and whole numbers are apart from floats. -/
namespace EntityStore

inductive Json
  | null
  | bool (b : Bool)
  | int (n : Int)
  | float (x : Binary64)
  | str (s : String)
  | arr (items : List Json)
  | obj (members : List (String × Json))

namespace Json

instance : Inhabited Json := ⟨null⟩

/-- An object with the given members; of two at one key the later counts. -/
def ofMembers (members : List (String × Json)) : Json := obj (Assoc.ofList members)

def member? (key : String) : Json → Option Json
  | obj members => Assoc.find? key members
  | _ => none

def str? : Json → Option String
  | str s => some s
  | _ => none

/-- The name that a value of a plain choice has: a text, or the one key of an object with nothing at
it. -/
def choice? : Json → Option String
  | str s => some s
  | obj [(key, null)] => some key
  | _ => none

def shape : Json → String
  | null => "null"
  | bool _ => "boolean"
  | int _ => "integer"
  | float _ => "float"
  | str _ => "string"
  | arr _ => "list"
  | obj _ => "mapping"

mutual

/-- Equality of values, where floats are compared by value: the two zeros are equal. -/
def same : Json → Json → Bool
  | null, null => true
  | bool a, bool b => a == b
  | int m, int n => m == n
  | float x, float y => x.sameValue y
  | str s, str t => s == t
  | arr xs, arr ys => sameItems xs ys
  | obj xs, obj ys => sameMembers xs ys
  | _, _ => false

def sameItems : List Json → List Json → Bool
  | [], [] => true
  | x :: xs, y :: ys => same x y && sameItems xs ys
  | _, _ => false

def sameMembers : List (String × Json) → List (String × Json) → Bool
  | [], [] => true
  | (j, x) :: xs, (k, y) :: ys => j == k && same x y && sameMembers xs ys
  | _, _ => false

end

end Json

end EntityStore
