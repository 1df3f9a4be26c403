import EntityStore.Entity.Record

/-! Stores: a directory with a namespace for each kind and a file for each record. -/
namespace EntityStore

inductive OutputFormat
  | pretty
  | compact
deriving DecidableEq, Repr

namespace OutputFormat

def all : List OutputFormat := [.pretty, .compact]

def name : OutputFormat → String
  | .pretty => "pretty"
  | .compact => "compact"

def ofName? (s : String) : Option OutputFormat := all.find? fun f => f.name == s

end OutputFormat

/-- How a store writes: the layout of record files, whether they appear whole by a rename, and
whether options must have their canonical case. -/
structure StoreOptions where
  outputFormat : OutputFormat := .pretty
  atomicWrites : Bool := true
  strictCase : Bool := false
deriving DecidableEq, Repr

/-- A store in the directory `root`, which is there once it is opened, and which messages call
`rootText`. -/
structure Store where
  root : Path
  rootText : String
  options : StoreOptions

namespace Store

/-- The store at a path text, read from the directory `base`, whose directory is there. -/
def existing (t : Tree) (base : Path) (rootText : String) (options : StoreOptions) :
    Except IoError Store := do
  let root ← t.resolve base rootText
  t.checkDirectory root
  return ⟨root, rootText, options⟩

/-- Opens the store at a path text, and makes its directory, and those above it, where there is
nothing. The tree is the one afterwards, also on failure. -/
def openAt (t : Tree) (base : Path) (rootText : String) (options : StoreOptions) :
    Tree × Except IoError Store :=
  match existing t base rootText options with
  | .ok store => (t, .ok store)
  | .error _ =>
    match t.makeDirectories base rootText with
    | (t, .ok ()) => (t, existing t base rootText options)
    | (t, .error e) => (t, .error e)

def namespacePath (s : Store) (k : Kind) : Path := s.root ++ [k.name]

def fileName (id : String) : String := id ++ ".json"

def recordPath (s : Store) (k : Kind) (id : String) : Path := s.namespacePath k ++ [fileName id]

def namespaceText (s : Store) (k : Kind) : String := Path.join s.rootText k.name

def fileText (s : Store) (k : Kind) (name : String) : String := Path.join (s.namespaceText k) name

/-- The kinds with a directory, in taxonomy order. -/
def namespaces (s : Store) (t : Tree) : List Kind :=
  Kind.all.filter fun k => t.isDirectory (s.namespacePath k)

def isRecordName (name : String) : Bool :=
  name.toList.head? != some '.' && ".json".toList.isSuffixOf name.toList

/-- The text of a record file. -/
def encode (s : Store) (r : Record) : String :=
  match s.options.outputFormat with
  | .pretty => (Json.obj r).pretty
  | .compact => (Json.obj r).compact

end Store

end EntityStore
