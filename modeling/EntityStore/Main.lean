import EntityStore.CommandLine.Run

/-! The program. It copies the files that a run may read into a tree, runs on the tree, and writes
what has changed. -/
namespace EntityStore.Program

def placeText (p : Path) : String := "/" ++ "/".intercalate p

def nodeAt (p : Path) : IO (Option Node) := do
  let file := (← IO.currentDir) / placeText p
  if ← file.isDir then return some .directory
  if ← file.pathExists then return some (.file (.ofBytes (← IO.FS.readBinFile file)))
  return none

/-- Copies what stands on the way along path components. -/
def copyAlong (t : Tree) (here : Path) : List String → IO Tree
  | [] => return t
  | c :: cs => do
    if c = "" ∨ c = "." then copyAlong t here cs
    else if c = ".." then copyAlong t here.dropLast cs
    else
      let p := here ++ [c]
      match ← nodeAt p with
      | some n => copyAlong (t.put p n) p cs
      | none => return t

/-- Copies what stands on the way along a path text. -/
def copyPath (base : Path) (t : Tree) (text : String) : IO Tree :=
  copyAlong t (if Path.isAbsolute text then [] else base) (Path.components text)

/-- Copies what stands in a directory. -/
def copyEntries (t : Tree) (p : Path) : IO Tree := do
  let directory := (← IO.currentDir) / placeText p
  unless ← directory.isDir do return t
  (← directory.readDir).foldlM (fun t entry => do
    let q := p ++ [entry.fileName]
    match ← nodeAt q with
    | some n => return t.put q n
    | none => return t) t

/-- Copies the namespaces of a store and the files in them. -/
def copyStore (t : Tree) (text : String) : IO Tree := do
  let t ← copyPath [] t text
  match t.resolve [] text with
  | .error _ => return t
  | .ok root =>
    Kind.all.foldlM (fun t k => do
      let p := root ++ [k.name]
      match ← nodeAt p with
      | some n => copyEntries (t.put p n) p
      | none => return t) t

/-- Copies what stands where a settings file may be. -/
def copySettings (base : Path) (t : Tree) (file : String) : IO Tree := do
  let t ← copyPath base t file
  (Settings.extended base file).foldlM (fun t (names, _) => copyAlong t [] names) t

def commandPaths : CommandLine.Command → List String
  | .save files _ => files
  | .config (some file) => [file]
  | _ => []

/-- Copies the files that a command line may read. -/
def snapshot (s : Surroundings) (i : CommandLine.Invocation) : IO Tree := do
  let t ← copyPath [] .empty s.workingDirectory
  let files := Settings.defaultFiles ++ s.userFile.toList ++ i.settingsFile.toList
  let t ← files.foldlM (copySettings s.base) t
  let t ← (commandPaths i.command).foldlM (copyPath s.base) t
  match Settings.load s t i.settingsFile with
  | .error _ => return t
  | .ok settings =>
    let settings := { settings with path := i.storePath.getD settings.path }
    copyStore t (settings.storePath s.workingDirectory)

/-- Writes a text to a file, which appears whole under its name. -/
def writeWhole (p : Path) (text : String) : IO Unit := do
  let temporary := placeText (p.dropLast ++ ["." ++ p.getLastD "" ++ ".tmp"])
  IO.FS.writeFile temporary text
  IO.FS.rename temporary (placeText p)

/-- Makes the directories and writes the texts in which a tree differs from the one before it. -/
def commit (old new : Tree) : IO Unit := do
  for (p, n) in new.nodes do
    unless old.node? p = some n do
      match n with
      | .directory => IO.FS.createDir (placeText p)
      | .file (.text text) => writeWhole p text
      | .file (.binary _) => pure ()

/-- The variables of an environment block, each `name=value` with a null character behind it. -/
def variablesOf (block : String) : List (String × String) :=
  (Text.split '\x00' block.toList).filterMap fun cs =>
    match cs.dropWhile (· != '=') with
    | _ :: v => some (String.ofList (cs.takeWhile (· != '=')), String.ofList v)
    | [] => none

def environment : IO (List (String × String)) := do
  try
    let block ← IO.FS.readBinFile "/proc/self/environ"
    return variablesOf ((String.fromUTF8? block).getD "")
  catch _ => return []

/-- The path of the user's settings file, if there is anything at it. -/
def userFile : IO (Option String) := do
  let directory ← match ← IO.getEnv "XDG_CONFIG_HOME" with
    | some d => if Path.isAbsolute d then pure (some d) else pure none
    | none => pure none
  let home ← IO.getEnv "HOME"
  let base := directory <|> home.map (Path.join · ".config")
  match base.map (Path.join · "cyberdem/cyberdem.toml") with
  | some file => return if ← ((← IO.currentDir) / file).pathExists then some file else none
  | none => return none

def run (arguments : List String) : IO UInt32 := do
  let s : Surroundings := ⟨(← IO.currentDir).toString, ← userFile, ← environment⟩
  let t ← match CommandLine.parse? arguments with
    | some i => snapshot s i
    | none => pure .empty
  let o := CommandLine.run s t arguments
  commit t o.tree
  IO.print o.output
  IO.eprint o.errors
  return o.code.toUInt32

end EntityStore.Program

def main (arguments : List String) : IO UInt32 := EntityStore.Program.run arguments
