import EntityStore.Settings.Basic
import EntityStore.Settings.Environment
import EntityStore.Settings.FileFormat

/-! Settings loaded from layers: the files in the working directory, the user's file, a file that is
asked for, and the environment. -/
namespace EntityStore

inductive SettingsError
  | missing (file : String)
  | unknownFormat (file : String)
  | unreadable (file : String) (cause : IoError)
  | malformed (file : String)
  | wrongSection (name : String)
  | wrongValue (key : String)
deriving DecidableEq, Repr

def SettingsError.message : SettingsError → String
  | .missing file => "configuration file \"" ++ file ++ "\" not found"
  | .unknownFormat file =>
    "configuration file \"" ++ file ++ "\" is not of a registered file format"
  | .unreadable file cause => "configuration file \"" ++ file ++ "\": " ++ cause.message
  | .malformed file => "configuration file \"" ++ file ++ "\" has a syntax error"
  | .wrongSection name => "invalid type for section \"" ++ name ++ "\""
  | .wrongValue key => "invalid value for key \"" ++ key ++ "\""

/-- Where the program runs: the working directory, the path of the user's settings file, and the
environment. The path is none where nothing stands at it, even if there are files that continue it
by an extension. -/
structure Surroundings where
  workingDirectory : String
  userFile : Option String
  environment : List (String × String)

def Surroundings.base (s : Surroundings) : Path :=
  (Path.components s.workingDirectory).filter (· ≠ "")

namespace Settings

/-! Values of settings. -/

/-- A value as a text. Numbers and truth values are written out. -/
def text? : Json → Option String
  | .str s => some s
  | .bool b => some (truthWord b)
  | .int n => some (String.ofList (Decimal.ofInt n))
  | .float x => some (String.ofList (Decimal.plain x))
  | _ => none

/-- A value as a truth value. Numbers other than zero are true. -/
def truth? : Json → Option Bool
  | .bool b => some b
  | .int n => some (n != 0)
  | .float x => some (!x.isZero)
  | .str s =>
    if ["1", "true", "on", "yes"].any (Text.sameFolded s) then some true
    else if ["0", "false", "off", "no"].any (Text.sameFolded s) then some false
    else none
  | _ => none

/-- A value as a format: its name in any letter case, or an object with that one key. -/
def format? : Json → Option OutputFormat
  | .str s => ofName? s
  | .obj [(key, _)] => ofName? key
  | _ => none
where
  ofName? (s : String) : Option OutputFormat :=
    OutputFormat.all.find? fun f => Text.sameFolded f.name s

/-- The value of a field, or what it is when it is absent. -/
def field {α : Type} (key : String) (read? : Json → Option α) (default : α) :
    Option Json → Except SettingsError α
  | none => .ok default
  | some j => (read? j).elim (.error (.wrongValue key)) .ok

/-- The fields of a section: an object has them by key, and an array in order. -/
def fields (name : String) (keys : List String) : Option Json →
    Except SettingsError (List (Option Json))
  | none => .ok (keys.map fun _ => none)
  | some (.obj members) => .ok (keys.map fun k => Assoc.find? k members)
  | some (.arr items) => .ok ((List.range keys.length).map (items[·]?))
  | some _ => .error (.wrongSection name)

/-- The settings of merged values. Keys of other names count for nothing. -/
def ofJson (j : Json) : Except SettingsError Settings := do
  let defaults : Settings := {}
  let store ← fields storeSection ["path", "output_format", "atomic_writes"]
    (j.member? storeSection)
  let path ← field "store.path" text? defaults.path (store[0]?).join
  let outputFormat ← field "store.output_format" format? defaults.outputFormat (store[1]?).join
  let atomicWrites ← field "store.atomic_writes" truth? defaults.atomicWrites (store[2]?).join
  let validation ← fields validationSection ["strict_enum_case"] (j.member? validationSection)
  let strictCase ←
    field "validation.strict_enum_case" truth? defaults.strictCase (validation[0]?).join
  return { path, outputFormat, atomicWrites, strictCase }

/-! Layers of files. -/

/-- A regular file at a path text. -/
def fileAt? (t : Tree) (base : Path) (text : String) : Option Path :=
  match t.resolve base text with
  | .ok p => if t.isFile p then some p else none
  | .error _ => none

/-- The names that lead to the files of a name which lacks its extension, with their formats. A name
for a directory as such has none. -/
def extended (base : Path) (name : String) : List (Path × FileFormat) :=
  let names := (if Path.isAbsolute name then [] else base) ++ Path.names name
  let last := names.getLastD ".."
  if last = ".." then []
  else FileFormat.all.flatMap fun f => f.extensions.map fun e =>
    (names.dropLast ++ [last ++ "." ++ e], f)

/-- The file of a name and its format. Where there is none, the name may lack its extension. -/
def locate (t : Tree) (base : Path) (name : String) : Except SettingsError (Path × FileFormat) :=
  match fileAt? t base name with
  | some p => match FileFormat.ofName? (p.getLastD "") with
    | some f => .ok (p, f)
    | none => .error (.unknownFormat name)
  | none =>
    let found := (extended base name).findSome? fun (names, f) =>
      ((t.walk [] names).toOption.filter t.isFile).map (·, f)
    found.elim (.error (.missing name)) .ok

/-- A text without a byte order mark in front. -/
def withoutMark (text : String) : String :=
  match text.toList with
  | '\ufeff' :: cs => String.ofList cs
  | _ => text

/-- The layer of a file that must be there. -/
def requiredLayer (t : Tree) (base : Path) (name : String) :
    Except SettingsError (List (String × Json)) := do
  let (p, f) ← locate t base name
  let text ← (t.readText p).mapError (.unreadable name)
  (f.parse? (withoutMark text)).elim (.error (.malformed name)) .ok

/-- The layer of a file that may be absent. What there is must be well formed. -/
def optionalLayer (t : Tree) (base : Path) (name : String) :
    Except SettingsError (List (String × Json)) :=
  match requiredLayer t base name with
  | .ok layer => .ok layer
  | .error (.malformed file) => .error (.malformed file)
  | .error _ => .ok []

/-- The settings files of a working directory, each over those before it. -/
def defaultFiles : List String := ["cyberdem.toml", ".cyberdem.toml", "config/cyberdem.toml"]

/-- All layers in order: the files of the working directory, the user's file, the file that is asked
for, and the environment. -/
def layers (s : Surroundings) (t : Tree) (file : Option String) :
    Except SettingsError (List (List (String × Json))) := do
  let defaults ← defaultFiles.mapM (optionalLayer t s.base)
  let user ← s.userFile.toList.mapM (optionalLayer t s.base)
  let asked ← file.toList.mapM (requiredLayer t s.base)
  return defaults ++ user ++ asked ++ [variableLayer s.environment]

def load (s : Surroundings) (t : Tree) (file : Option String) : Except SettingsError Settings := do
  ofJson (addLayers (← layers s t file))

end Settings

end EntityStore
