import EntityStore.Store.Basic
import EntityStore.Toml.Printer

/-! The settings of the program, and their texts. -/
namespace EntityStore

/-- The sections of the settings. -/
def storeSection : String := "store"

def validationSection : String := "validation"

structure Settings where
  path : String := "./cyberdem-fs"
  outputFormat : OutputFormat := .pretty
  atomicWrites : Bool := true
  strictCase : Bool := false
deriving DecidableEq, Repr

namespace Settings

/-- How a store is opened with the settings. -/
def storeOptions (s : Settings) : StoreOptions := ⟨s.outputFormat, s.atomicWrites, s.strictCase⟩

/-- The path of the store, read from the working directory. -/
def storePath (s : Settings) (workingDirectory : String) : String :=
  Path.join workingDirectory s.path

def toJson (s : Settings) : Json :=
  .ofMembers [
    (storeSection, .ofMembers [
      ("path", .str s.path), ("output_format", .str s.outputFormat.name),
      ("atomic_writes", .bool s.atomicWrites)]),
    (validationSection, .ofMembers [("strict_enum_case", .bool s.strictCase)])]

/-- The word for a truth value. -/
def truthWord (b : Bool) : String := if b then "true" else "false"

def toToml (s : Settings) : String :=
  "[store]\npath = " ++ String.ofList (Toml.quoted s.path.toList)
    ++ "\noutput_format = \"" ++ s.outputFormat.name
    ++ "\"\natomic_writes = " ++ truthWord s.atomicWrites
    ++ "\n\n[validation]\nstrict_enum_case = " ++ truthWord s.strictCase ++ "\n"

end Settings

end EntityStore
