import EntityStore.Ini.Reader
import EntityStore.Json.Reader
import EntityStore.Json5.Reader
import EntityStore.Ron.Reader
import EntityStore.Text.Split
import EntityStore.Toml.Reader
import EntityStore.Yaml.Node

/-! The formats of settings files, and the members that their texts have. -/
namespace EntityStore.Settings

inductive FileFormat
  | toml
  | json
  | yaml
  | ini
  | ron
  | json5
deriving DecidableEq, Repr

mutual

/-- A value whose whole numbers are signed 64-bit ones. Others are floats. -/
def narrowed : Json → Json
  | .int n => if (Numeral.int64? n).isSome then .int n else .float (.ofInt n)
  | .arr items => .arr (narrowedItems items)
  | .obj members => .obj (narrowedMembers members)
  | v => v

def narrowedItems : List Json → List Json
  | [] => []
  | v :: vs => narrowed v :: narrowedItems vs

def narrowedMembers : List (String × Json) → List (String × Json)
  | [] => []
  | (key, v) :: rest => (key, narrowed v) :: narrowedMembers rest

end

namespace FileFormat

def all : List FileFormat := [.toml, .json, .yaml, .ini, .ron, .json5]

/-- What file names of a format may end in behind a dot. -/
def extensions : FileFormat → List String
  | .toml => ["toml"]
  | .json => ["json"]
  | .yaml => ["yaml", "yml"]
  | .ini => ["ini"]
  | .ron => ["ron"]
  | .json5 => ["json5"]

def parse? : FileFormat → String → Option (List (String × Json))
  | .toml, text => Toml.parse? text
  | .json, text => (Json.parseMembers? text).map narrowedMembers
  | .yaml, text => Yaml.parse? text
  | .ini, text => Ini.parse? text
  | .ron, text => Ron.parse? text
  | .json5, text => Json5.parse? text

/-- What follows the last dot of a file name, unless the dot stands first. -/
def extension? (name : String) : Option String :=
  match (Text.split '.' name.toList).reverse with
  | last :: before :: more =>
    if before.isEmpty && more.isEmpty then none else some (String.ofList last)
  | _ => none

def ofName? (name : String) : Option FileFormat :=
  (extension? name).bind fun e => all.find? fun f => f.extensions.contains e

end FileFormat

end EntityStore.Settings
