import EntityStore.CommandLine.Arguments
import EntityStore.Settings.Load
import EntityStore.Store.Query
import EntityStore.Store.Save

/-! What a command line does: the files after it, what it prints, and how it ends. -/
namespace EntityStore.CommandLine

/-- The messages of an error and of the causes behind it. -/
abbrev Chain := List String

/-- What a command did: the files after it, the value to print, and why it failed. -/
structure Effect where
  tree : Tree
  printed : Option Json
  failure : Option Chain

def Effect.fail (t : Tree) (why : Chain) : Effect := ⟨t, none, some why⟩

def Effect.print (t : Tree) (j : Json) : Effect := ⟨t, some j, none⟩

def optionalText : Option String → Json
  | some s => .str s
  | none => .null

def summary (k : Kind) : List (String × Json) :=
  [("kind", .str k.name), ("branch", .str k.branch.name),
    ("parent", optionalText (k.parent?.map (·.name)))]

def declaration (a : Attribute) : Json :=
  .ofMembers [("name", .str a.name), ("type", .str a.type.describe), ("required", .bool a.required)]

def description (k : Kind) : Json :=
  .ofMembers (summary k ++ [("id_prefix", optionalText k.idPrefix?),
    ("attributes", .arr (k.attributes.map declaration))])

def kinds (t : Tree) : Option String → Effect
  | none => .print t (.arr (Kind.all.map fun k => .ofMembers (summary k)))
  | some name =>
    match Kind.resolve name with
    | .ok k => .print t (description k)
    | .error e => .fail t (Error.refused e).chain

/-- Shows the settings, or writes the default ones to a file. -/
def config (s : Surroundings) (settings : Settings) (t : Tree) : Option String → Effect
  | none => .print t settings.toJson
  | some file =>
    let text := ({} : Settings).toToml
    match (t.resolve s.base file).bind fun p => t.write p (.text text) with
    | .ok t => ⟨t, none, none⟩
    | .error e => .fail t ["Failed to write " ++ file, e.message]

/-- Opens the store of the settings, and goes on with it. -/
def withStore (s : Surroundings) (settings : Settings) (t : Tree)
    (act : Store → Tree → Effect) : Effect :=
  let path := settings.storePath s.workingDirectory
  match Store.openAt t [] path settings.storeOptions with
  | (t, .ok store) => act store t
  | (t, .error e) => .fail t (("Failed to open store at " ++ path) :: (Error.io e).chain)

/-- The rows of a query's result by header. -/
def query (s : Surroundings) (settings : Settings) (t : Tree) (text : String) : Effect :=
  withStore s settings t fun store t =>
    match store.query t text with
    | .ok table =>
      .print t (.ofMembers [
        ("headers", .arr (table.headers.map .str)), ("rows", table.toJson)])
    | .error e => .fail t e.chain

/-- The records found by id. It is a failure too if any is missing. -/
def get (s : Surroundings) (settings : Settings) (t : Tree) (ids : List String)
    (kind : Option String) : Effect :=
  withStore s settings t fun store t =>
    let lookup := do
      let kind ← (kind.mapM Kind.resolve).mapError Error.refused
      store.getMany t ids kind
    match lookup with
    | .ok found =>
      let records := Json.arr (found.found.map Entity.toJson)
      let why := if found.missing.isEmpty then none else some (Error.notFound found.missing).chain
      ⟨t, some records, why⟩
    | .error e => .fail t e.chain

/-- The records of a file's value: one record, or an array of them. -/
def recordsOf (file : String) : Json → Except Chain (List Record)
  | .obj record => .ok [record]
  | .arr items => items.mapM fun
    | .obj record => .ok record
    | other => .error ["Expected a record object in " ++ file ++ ", got " ++ other.compact]
  | other =>
    .error ["Expected a record or array of records in " ++ file ++ ", got " ++ other.compact]

def readEntities (s : Surroundings) (t : Tree) (file : String) : Except Chain (List Entity) := do
  let text ← ((t.resolve s.base file).bind t.readText).mapError fun e =>
    ["Failed to read " ++ file, e.message]
  match Json.parse? text with
  | none => throw [file ++ " is not valid JSON"]
  | some j =>
    let records ← recordsOf file j
    records.mapM fun r => (Entity.ofRecord r).mapError fun e =>
      ("Invalid record in " ++ file) :: (Error.refused e).chain

def save (s : Surroundings) (settings : Settings) (t : Tree) (files : List String)
    (overwrite : Bool) : Effect :=
  withStore s settings t fun store t =>
    match files.mapM (readEntities s t) with
    | .error why => .fail t why
    | .ok batches =>
      let entities := batches.flatten
      match store.saveAll t entities overwrite with
      | (t, .error e) => .fail t e.chain
      | (t, .ok ()) =>
        .print t (.arr (entities.map fun e =>
          .ofMembers [("id", .str e.id), ("kind", .str e.kind.name)]))

def execute (s : Surroundings) (settings : Settings) (t : Tree) : Command → Effect
  | .query text => query s settings t text
  | .get ids kind => get s settings t ids kind
  | .save files overwrite => save s settings t files overwrite
  | .kinds kind => kinds t kind
  | .config newFile => config s settings t newFile

/-- Loads the settings and runs the command. A store path on the command line wins over them. -/
def invoke (s : Surroundings) (t : Tree) (i : Invocation) : Effect :=
  match Settings.load s t i.settingsFile with
  | .error e => .fail t ["Failed to load configuration", e.message]
  | .ok settings =>
    execute s { settings with path := i.storePath.getD settings.path } t i.command

/-- How a run ends: the files after it, its exit code, and the texts on both outputs. -/
structure Outcome where
  tree : Tree
  code : UInt8
  output : String
  errors : String

def Effect.outcome (e : Effect) : Outcome where
  tree := e.tree
  code := if e.failure.isSome then 1 else 0
  output := (e.printed.map fun j => j.pretty ++ "\n").getD ""
  errors := (e.failure.map fun why => "Error: " ++ ": ".intercalate why ++ "\n").getD ""

/-- The text for arguments that do not follow the grammar. -/
def usage : String :=
  "usage: [-c|--config FILE] [-s|--store DIR] COMMAND\n\n"
    ++ "commands:\n"
    ++ "  query SQL\n"
    ++ "  get ID... [-k|--kind KIND]\n"
    ++ "  save FILE... [--overwrite]\n"
    ++ "  kinds [-k|--kind KIND]\n"
    ++ "  config [--init PATH]\n"

def run (s : Surroundings) (t : Tree) (arguments : List String) : Outcome :=
  match parse? arguments with
  | some i => (invoke s t i).outcome
  | none => ⟨t, 2, "", usage⟩

end EntityStore.CommandLine
