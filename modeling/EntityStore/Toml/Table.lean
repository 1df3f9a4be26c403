import EntityStore.Json.Basic

/-! Tables of a TOML document while it is read, and what its lines may still add to them. -/
namespace EntityStore.Toml

/-- What made a table: a header of its own or braces, the way to another table's header, or a dotted
key. -/
inductive Origin
  | header
  | passage
  | dottedKey
deriving DecidableEq, Repr

/-- What stands at a key: a value, a table, or a series of tables of which the last is open. Closed
ones stand last first. -/
inductive Item
  | value (v : Json)
  | table (origin : Origin) (items : List (String × Item))
  | series (closed : List Json) (last : List (String × Item))

abbrev Items := List (String × Item)

mutual

def Item.toJson : Item → Json
  | .value v => v
  | .table _ items => .obj (membersOf items)
  | .series closed last => .arr (.obj (membersOf last) :: closed).reverse

def membersOf : List (String × Item) → List (String × Json)
  | [] => []
  | (k, i) :: rest => (k, i.toJson) :: membersOf rest

end

namespace Items

/-- Changes the table that a path leads to, and makes those on the way that are not there. The path
of a dotted key does not enter a table with a header. -/
def change (dotted : Bool) (f : Origin → Items → Option Items) (origin : Origin) :
    List String → Items → Option Items
  | [], items => f origin items
  | k :: path, items =>
    match Assoc.find? k items with
    | none =>
      let made := if dotted then Origin.dottedKey else .passage
      (change dotted f made path []).map fun inner => Assoc.insert k (.table made inner) items
    | some (.value _) => none
    | some (.table origin inner) =>
      if dotted && origin == .header then none
      else (change dotted f origin path inner).map fun inner =>
        Assoc.insert k (.table origin inner) items
    | some (.series closed last) =>
      (change dotted f .header path last).map fun last =>
        Assoc.insert k (.series closed last) items

/-- The table of a header. Only one that was made on the way to another header may be there. -/
def openTable (k : String) (items : Items) : Option Items :=
  match Assoc.find? k items with
  | none => some (Assoc.insert k (.table .header []) items)
  | some (.table .passage inner) => some (Assoc.insert k (.table .header inner) items)
  | _ => none

/-- One more table in a series. -/
def openSeries (k : String) (items : Items) : Option Items :=
  match Assoc.find? k items with
  | none => some (Assoc.insert k (.series [] []) items)
  | some (.series closed last) =>
    some (Assoc.insert k (.series (.obj (membersOf last) :: closed) []) items)
  | _ => none

/-- The table of the header `path`. -/
def addHeader (series : Bool) (path : List String) (items : Items) : Option Items :=
  let k := path.getLastD ""
  change false (fun _ inner => if series then openSeries k inner else openTable k inner)
    .header path.dropLast items

/-- Puts a value at a dotted key. The key must be new, and its table one that dotted keys made. -/
def putValue (key : List String) (v : Json) (origin : Origin) (items : Items) : Option Items :=
  let k := key.getLastD ""
  change true (fun origin inner =>
    if (origin == .dottedKey) != (1 < key.length) || Assoc.contains k inner then none
    else some (Assoc.insert k (.value v) inner)) origin key.dropLast items

/-- Puts a value at a dotted key of the table of the header `path`. -/
def addValue (path key : List String) (v : Json) (items : Items) : Option Items :=
  change false (putValue key v) .header path items

end Items

end EntityStore.Toml
