import EntityStore.Entity.Validation
import EntityStore.Json.Basic
import EntityStore.Time.Span
import EntityStore.Time.Timestamp

/-! Typed attribute values: their JSON form, and how a declaration admits and normalises them. -/
namespace EntityStore

inductive Value
  | string (s : String)
  | boolean (b : Bool)
  | integer (n : Int64)
  | float (x : Binary64)
  | timestamp (t : Timestamp)
  | duration (d : Span)
  | list (items : List Json)
  | mapping (members : List (String × Json))

namespace Value

/-- Name of a value's type. -/
def typeName : Value → String
  | string _ => "string"
  | boolean _ => "boolean"
  | integer _ => "integer"
  | float _ => "float"
  | timestamp _ => "timestamp"
  | duration _ => "duration"
  | list _ => "list"
  | mapping _ => "mapping"

def text? : Value → Option String
  | string s => some s
  | _ => none

/-- The value in a record. Timestamps are RFC 3339 texts, durations whole milliseconds. -/
def toJson : Value → Json
  | string s => .str s
  | boolean b => .bool b
  | integer n => .int n.toInt
  | float x => if x.isFinite then .float x else .null
  | timestamp t => .str t.render
  | duration d => .int d.milliseconds
  | list items => .arr items
  | mapping members => .obj members

/-- The value that a record holds for a declared attribute. -/
def ofJson (a : Attribute) (j : Json) : Except ValidationError Value :=
  let mismatch := .typeMismatch a.name a.type j.shape
  match a.type, j with
  | .string, .str s => .ok (string s)
  | .option _, .str s => .ok (string s)
  | .boolean, .bool b => .ok (boolean b)
  | .integer, .int n => ((Numeral.int64? n).map integer).elim (.error mismatch) .ok
  | .float, .int n => .ok (float (.ofInt n))
  | .float, .float x => .ok (float x)
  | .timestamp, .str s => ((Timestamp.parse? s).map timestamp).elim (.error mismatch) .ok
  | .duration, .int n => ((Span.ofMilliseconds? n).map duration).elim (.error mismatch) .ok
  | .list, .arr items => .ok (list items)
  | .stringList, .arr items => .ok (list items)
  | .optionList _, .arr items => .ok (list items)
  | .mapping, .obj members => .ok (mapping members)
  | _, _ => .error mismatch

/-- The texts of a list of strings, or the shape of its first item of another kind. -/
def texts : List Json → Except String (List String)
  | [] => .ok []
  | .str s :: rest => (texts rest).map (s :: ·)
  | j :: _ => .error j.shape

/-- Checks a value against a declaration: the value as it is stored, with the diagnostics of options
in another letter case. Whole numbers become floats where floats are declared, and durations lose
what is finer than a millisecond. -/
def validate (a : Attribute) (v : Value) : Except ValidationError (Value × List CaseDiagnostic) :=
  let mismatch (found : String) := .error (.typeMismatch a.name a.type found)
  match a.type, v with
  | .string, string s => .ok (string s, [])
  | .boolean, boolean b => .ok (boolean b, [])
  | .integer, integer n => .ok (integer n, [])
  | .float, integer n => .ok (float (.ofInt n.toInt), [])
  | .float, float x => if x.isFinite then .ok (float x, []) else mismatch "non-finite float"
  | .timestamp, timestamp t =>
    let y := t.date.year
    if 0 ≤ y ∧ y ≤ 9999 then .ok (timestamp t, [])
    else mismatch ("timestamp in year " ++ String.ofList (Decimal.ofInt y))
  | .duration, duration d => .ok (duration d.truncate, [])
  | .list, list items => .ok (list items, [])
  | .stringList, list items =>
    match texts items with
    | .ok _ => .ok (list items, [])
    | .error shape => mismatch ("list containing " ++ shape)
  | .mapping, mapping members => .ok (mapping members, [])
  | .option e, string s => do
    let d ← e.check a.name s
    return (string s, d.toList)
  | .optionList e, list items =>
    match texts items with
    | .ok ts => do
      let ds ← e.checkAll a.name ts
      return (list items, ds)
    | .error shape => mismatch ("list containing " ++ shape)
  | _, v => mismatch v.typeName

/-- Equality of values, where floats are compared by value. -/
def same : Value → Value → Bool
  | string s, string t => s == t
  | boolean a, boolean b => a == b
  | integer m, integer n => m == n
  | float x, float y => x.sameValue y
  | timestamp s, timestamp t => s == t
  | duration d, duration e => d == e
  | list xs, list ys => Json.sameItems xs ys
  | mapping xs, mapping ys => Json.sameMembers xs ys
  | _, _ => false

end Value

end EntityStore
