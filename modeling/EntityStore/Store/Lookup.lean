import EntityStore.Store.Basic

/-! Reading records: by id, and all of a kind. -/
namespace EntityStore.Store

/-- The entity in a file of a kind's directory. Its own kind and id must lead to the file. -/
def readRecord (s : Store) (t : Tree) (k : Kind) (name : String) : Except Error Entity := do
  let corrupt := Error.corrupt (s.fileText k name)
  let text ← (t.readText (s.namespacePath k ++ [name])).mapError .io
  match Json.parseMembers? text with
  | none => throw (corrupt .notAnObject)
  | some r =>
    let e ← (Entity.ofRecord r).mapError fun cause => corrupt (.refused cause)
    if s.recordPath e.kind e.id = s.namespacePath k ++ [name] then return e
    else throw (corrupt (.misplaced e.id e.kind))

def contains (s : Store) (t : Tree) (k : Kind) (id : String) : Bool :=
  Id.valid k id && t.isFile (s.recordPath k id)

/-- The kinds that a search covers: one, or all with a directory. -/
def scope (s : Store) (t : Tree) : Option Kind → List Kind
  | some k => [k]
  | none => s.namespaces t

/-- The first kind with a record of an id. -/
def locate? (s : Store) (t : Tree) (kinds : List Kind) (id : String) : Option Kind :=
  kinds.find? fun k => s.contains t k id

/-- The entity with an id, if there is one. -/
def get (s : Store) (t : Tree) (id : String) (kind : Option Kind) :
    Except Error (Option Entity) :=
  match s.locate? t (s.scope t kind) id with
  | some k => (s.readRecord t k (fileName id)).map some
  | none => .ok none

/-- The entities found by id, and the ids of none. -/
structure Lookup where
  found : List Entity
  missing : List String

/-- The entities, if none is missing. -/
def Lookup.entities (l : Lookup) : Except Error (List Entity) :=
  if l.missing.isEmpty then .ok l.found else .error (.notFound l.missing)

/-- Looks ids up in some kinds, in turn. -/
def lookup (s : Store) (t : Tree) (kinds : List Kind) : List String → Except Error Lookup
  | [] => .ok ⟨[], []⟩
  | id :: ids =>
    match s.locate? t kinds id with
    | some k => do
      let e ← s.readRecord t k (fileName id)
      let l ← s.lookup t kinds ids
      return ⟨e :: l.found, l.missing⟩
    | none => do
      let l ← s.lookup t kinds ids
      return ⟨l.found, id :: l.missing⟩

def getMany (s : Store) (t : Tree) (ids : List String) (kind : Option Kind) :
    Except Error Lookup :=
  s.lookup t (s.scope t kind) ids

/-- The names of the record files of a kind. -/
def recordNames (s : Store) (t : Tree) (k : Kind) : List String :=
  if t.isDirectory (s.namespacePath k) then
    (t.children (s.namespacePath k)).filterMap fun (name, n) =>
      if n != .directory && isRecordName name then some name else none
  else []

/-- All entities of a kind, by file name. -/
def list (s : Store) (t : Tree) (k : Kind) : Except Error (List Entity) :=
  (s.recordNames t k).mapM fun name => s.readRecord t k name

end EntityStore.Store
