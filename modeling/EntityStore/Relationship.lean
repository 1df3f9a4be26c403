import EntityStore.Entity.Basic

/-! Relationships: directed, typed edges between entities, and the edges that point back. -/
namespace EntityStore

/-- The ends of an edge and its type. -/
structure Triple where
  subject : String
  type : String
  object : String
deriving DecidableEq, Repr

namespace Relationship

/-- A relationship with the given edge, its id around `uuid`. -/
def make (uuid subject type object : String) (privileges : Option (List String)) :
    Except ValidationError Entity := do
  let edge : List (String × Value) := [
    ("subject_id", .string subject), ("relationship_type", .string type),
    ("object_id", .string object)]
  let more := match privileges with
    | some ps => [("privileges", Value.list (ps.map .str))]
    | none => []
  let (e, _) ← Entity.construct .relationship none uuid (edge ++ more)
  return e

def textOf? (e : Entity) (name : String) : Option String := (e.get? name).bind Value.text?

/-- The edge of a relationship; other kinds have none. -/
def triple? (e : Entity) : Option Triple :=
  if e.kind = .relationship then do
    let subject ← textOf? e "subject_id"
    let type ← textOf? e "relationship_type"
    let object ← textOf? e "object_id"
    return ⟨subject, type, object⟩
  else none

/-- The types of relationships, each beside the type that points back. -/
def inversePairs : List (String × String) := [
  ("Administers", "AdministeredBy"), ("ComponentOf", "HasComponent"),
  ("ContainedIn", "Contains"), ("ProvidedBy", "Provides"), ("ResidesOn", "HasResident")]

/-- The type that points back, for a type in any letter case. -/
def inverseType? (type : String) : Option String :=
  inversePairs.findSome? fun (a, b) =>
    if Text.sameFolded a type then some b
    else if Text.sameFolded b type then some a
    else none

/-- The privileges of a relationship, if they are set. -/
def privileges? (e : Entity) : Option (List String) :=
  match e.get? "privileges" with
  | some (.list items) => some (items.filterMap Json.str?)
  | _ => none

/-- The relationship that points back, its id around `uuid`, with the same privileges. -/
def inverse? (uuid : String) (e : Entity) : Option (Except ValidationError Entity) := do
  let edge ← triple? e
  let type ← inverseType? edge.type
  return make uuid edge.object type edge.subject (privileges? e)

end Relationship

end EntityStore
