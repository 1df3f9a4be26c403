import EntityStore.Json.Basic

/-! Tables of query results. -/
namespace EntityStore

/-- Rows under headers; a cell of none is a field that the record does not have. -/
structure Table where
  headers : List String
  rows : List (List (Option Json))

namespace Table

def size (t : Table) : Nat := t.rows.length

def isEmpty (t : Table) : Bool := t.rows.isEmpty

/-- The cells under the first header of a name; a row too short has none. -/
def column? (t : Table) (header : String) : Option (List (Option Json)) :=
  (t.headers.findIdx? (· == header)).map fun i => t.rows.map fun row => row[i]?.join

/-- The members of a row's object, absent cells left out. -/
def rowMembers (headers : List String) (row : List (Option Json)) : List (String × Json) :=
  Assoc.ofList ((headers.zip row).filterMap fun (h, cell) => cell.map (h, ·))

def toJson (t : Table) : Json := .arr (t.rows.map fun row => .obj (rowMembers t.headers row))

end Table

end EntityStore
