import EntityStore.Entity.Basic
import EntityStore.Error
import EntityStore.Json.Printer
import EntityStore.Json.Reader

/-! Entities as flat records: the id, the kind and every attribute that is set. -/
namespace EntityStore

abbrev Record := List (String × Json)

namespace Entity

def toRecord (e : Entity) : Record :=
  Assoc.insert idField (.str e.id) (Assoc.insert kindField (.str e.kind.name)
    (e.attributes.map fun (name, v) => (name, v.toJson)))

/-- The attributes of a record, read in order as a kind declares them. -/
def readAttributes (kind : Kind) : Record → Except ValidationError (List (String × Value))
  | [] => .ok []
  | (name, j) :: rest =>
    if name = idField ∨ name = kindField then readAttributes kind rest
    else match kind.attribute? name with
      | none => .error (.unknownAttribute kind name)
      | some a => do
        let v ← Value.ofJson a j
        let vs ← readAttributes kind rest
        return (name, v) :: vs

def ofRecordOf (kind : Kind) (r : Record) : Except ValidationError Entity := do
  match Assoc.find? idField r with
  | some (.str id) =>
    let attributes ← readAttributes kind r
    let (e, _) ← construct kind (some id) "" attributes
    return e
  | _ => throw (.missingField idField)

def ofRecord (r : Record) : Except Refusal Entity := do
  match Assoc.find? kindField r with
  | some (.str name) =>
    let kind ← Kind.resolve name
    (ofRecordOf kind r).mapError .invalid
  | _ => throw (.invalid (.missingField kindField))

def toJson (e : Entity) : Json := .obj e.toRecord

/-- A listing of the entity, an attribute to a line. -/
def display (e : Entity) : String :=
  e.kind.name ++ "(\n    id: " ++ e.id ++ "\n"
    ++ String.join (e.attributes.map fun (name, v) =>
      "    " ++ name ++ ": " ++ v.toJson.compact ++ "\n")
    ++ ")"

end Entity

end EntityStore
