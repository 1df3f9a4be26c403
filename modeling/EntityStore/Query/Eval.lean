import EntityStore.Entity.Basic
import EntityStore.Json.Printer
import EntityStore.Query.Basic
import EntityStore.Text.Blank
import EntityStore.Text.Case

/-! Conditions on entities. The stored value's type decides how it compares with a literal; a
literal that cannot be read as that type, and an absent attribute, satisfy no operator. -/
namespace EntityStore

/-- A literal as a float, white space around it aside. -/
def Literal.float? (text : String) : Option Binary64 :=
  Numeral.binary64? (Text.trim text.toList)

/-- A literal as a 64-bit integer, white space around it aside. -/
def Literal.integer? (text : String) : Option Int64 :=
  (Numeral.integer? (Text.trim text.toList)).bind Numeral.int64?

def Literal.boolean? (text : String) : Option Bool :=
  if Text.sameFolded text "true" then some true
  else if Text.sameFolded text "false" then some false
  else none

namespace Value

/-- The order of a float relative to a literal. -/
def compareFloat (x : Binary64) (literal : String) : Option Ordering :=
  (Literal.float? literal).bind x.compare?

/-- The order of an integer relative to a literal: exact for 64-bit integers, else as floats. -/
def compareInteger (n : Int) (literal : String) : Option Ordering :=
  match Literal.integer? literal with
  | some m => some (compare n m.toInt)
  | none => compareFloat (.ofInt n) literal

/-- The order of a value relative to a literal, if they are comparable. Lists and mappings compare
as their compact texts. -/
def compareLiteral (v : Value) (literal : String) : Option Ordering :=
  match v with
  | string s => some (compare s literal)
  | integer n => compareInteger n.toInt literal
  | float x => compareFloat x literal
  | duration d => compareInteger d.milliseconds literal
  | boolean b => (Literal.boolean? literal).map (compare b ·)
  | timestamp t => (Timestamp.parse? literal).map t.order
  | list _ => some (compare v.toJson.compact literal)
  | mapping _ => some (compare v.toJson.compact literal)

end Value

/-- The order of a field of an entity relative to a literal. The id and the kind are texts. -/
def Entity.compareField (e : Entity) (name literal : String) : Option Ordering :=
  if name = idField then some (compare e.id literal)
  else if name = kindField then some (compare e.kind.name literal)
  else (e.get? name).bind (·.compareLiteral literal)

def Clause.holds (c : Clause) (e : Entity) : Bool :=
  match e.compareField c.subject c.literal.text with
  | some o => c.op.accepts o
  | none => false

def Predicate.holds (e : Entity) : Predicate → Bool
  | .clause c => c.holds e
  | .join .and p q => p.holds e && q.holds e
  | .join .or p q => p.holds e || q.holds e

end EntityStore
