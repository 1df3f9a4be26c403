import EntityStore.Entity.Id
import EntityStore.Entity.Value

/-! Entities: a kind, an id and the attributes that are set. -/
namespace EntityStore

def idField : String := "id"

def kindField : String := "kind"

/-- An entity. Attributes that are not set are absent. -/
structure Entity where
  id : String
  kind : Kind
  attributes : List (String × Value)

namespace Entity

def get? (e : Entity) (name : String) : Option Value := Assoc.find? name e.attributes

def contains (e : Entity) (name : String) : Bool := (e.get? name).isSome

/-- The declaration of an attribute that may be set. -/
def declaration (e : Entity) (name : String) : Except ValidationError Attribute :=
  if name = idField ∨ name = kindField then .error (.reserved name)
  else match e.kind.attribute? name with
    | some a => .ok a
    | none => .error (.unknownAttribute e.kind name)

/-- Sets an attribute to the normalised value. -/
def set (e : Entity) (name : String) (v : Value) :
    Except ValidationError (Entity × List CaseDiagnostic) := do
  let a ← e.declaration name
  let (w, ds) ← v.validate a
  return ({ e with attributes := Assoc.insert name w e.attributes }, ds)

/-- Makes an attribute absent, and tells its value. A required one stays. -/
def unset (e : Entity) (name : String) : Except ValidationError (Entity × Option Value) := do
  let a ← e.declaration name
  if a.required then throw (.missingAttribute e.kind name)
  return ({ e with attributes := Assoc.erase name e.attributes }, e.get? name)

def setId (e : Entity) (id : String) : Except ValidationError Entity := do
  Id.validate e.kind id
  return { e with id }

/-- Sets attributes in turn, up to the first that is refused. -/
def setAll (e : Entity) :
    List (String × Value) → Except ValidationError (Entity × List CaseDiagnostic)
  | [] => .ok (e, [])
  | (name, v) :: rest => do
    let (e, ds) ← e.set name v
    let (e, more) ← e.setAll rest
    return (e, ds ++ more)

/-- The first required attribute that is absent. -/
def missing? (e : Entity) : Option Attribute :=
  e.kind.attributes.find? fun a => a.required && !e.contains a.name

/-- An entity of a kind with the given attributes; without an id it takes one around `uuid`. The id
is checked first, then the attributes in turn, then that none is missing. -/
def construct (kind : Kind) (id : Option String) (uuid : String)
    (attributes : List (String × Value)) :
    Except ValidationError (Entity × List CaseDiagnostic) := do
  let id ← match id with
    | some id => (Id.validate kind id).map fun _ => id
    | none => pure (Id.ofUuid kind uuid)
  let (e, ds) ← setAll ⟨id, kind, []⟩ attributes
  match e.missing? with
  | some a => throw (.missingAttribute kind a.name)
  | none => return (e, ds)

/-- The diagnostics of one attribute as it is stored. -/
def attributeDiagnostics (kind : Kind) (name : String) (v : Value) : List CaseDiagnostic :=
  match kind.attribute? name with
  | none => []
  | some a => match v.validate a with
    | .ok (_, ds) => ds
    | .error _ => []

/-- The diagnostics of all attributes that are set, in order of names. -/
def caseDiagnostics (e : Entity) : List CaseDiagnostic :=
  e.attributes.flatMap fun (name, v) => attributeDiagnostics e.kind name v

/-- Equality of attributes, where floats are compared by value. -/
def sameAttributes : List (String × Value) → List (String × Value) → Bool
  | [], [] => true
  | (j, v) :: rest, (k, w) :: rest' => j == k && v.same w && sameAttributes rest rest'
  | _, _ => false

/-- Equality of entities, where floats are compared by value. -/
def same (e f : Entity) : Bool :=
  e.id == f.id && e.kind == f.kind && sameAttributes e.attributes f.attributes

end Entity

end EntityStore
