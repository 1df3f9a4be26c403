import EntityStore.Store.Basic

/-! Saving records: all of a batch is checked before the first file is written. -/
namespace EntityStore.Store

structure Pending where
  directory : Path
  path : Path
  text : String

/-- Refuses an entity whose options are not in canonical case. -/
def checkCase (e : Entity) : Except Error Unit :=
  match e.caseDiagnostics with
  | d :: _ => .error (.refused (.invalid (.nonCanonicalCase d)))
  | [] => .ok ()

/-- Checks one entity after those at the paths `seen`. -/
def prepare (s : Store) (t : Tree) (overwrite : Bool) (seen : List Path) (e : Entity) :
    Except Error Pending := do
  if s.options.strictCase then checkCase e
  let path := s.recordPath e.kind e.id
  if !overwrite && (seen.contains path || t.has path) then throw (.conflict e.kind e.id)
  return ⟨s.namespacePath e.kind, path, s.encode e.toRecord⟩

def prepareAll (s : Store) (t : Tree) (overwrite : Bool) (seen : List Path) :
    List Entity → Except Error (List Pending)
  | [] => .ok []
  | e :: es => do
    let p ← s.prepare t overwrite seen e
    let ps ← s.prepareAll t overwrite (p.path :: seen) es
    return p :: ps

/-- One change of the file tree. It is stopped here by what stands in the tree only. A full disk, or
a path that is too long as a whole, may stop any step, also halfway. -/
inductive Step
  | makeDirectory (p : Path)
  | create (p : Path)
  | append (p : Path) (text : String)
  | rename (source target : Path)
  | write (p : Path) (text : String)
deriving DecidableEq, Repr

def Step.run (t : Tree) : Step → Except IoError Tree
  | .makeDirectory p => t.makeDirectory p
  | .create p => t.create p
  | .append p text => t.append p text
  | .rename source target => t.rename source target
  | .write p text => t.write p (.text text)

/-- The tree that a failed step leaves: a file that cannot be moved to its place is removed. -/
def Step.abandon (t : Tree) : Step → Tree
  | .rename source _ => t.erase source
  | _ => t

/-- Runs steps up to the first that fails. -/
def runSteps (t : Tree) : List Step → Tree × Except IoError Unit
  | [] => (t, .ok ())
  | step :: steps =>
    match step.run t with
    | .ok t => runSteps t steps
    | .error e => (step.abandon t, .error e)

/-- The name of temporary file number `n`. The dot in front keeps it out of scans. -/
def temporaryName (n : Nat) : String := "." ++ toString n ++ ".tmp"

/-- The first temporary file of a directory that is not there yet. -/
def temporaryPath (t : Tree) (directory : Path) : Path :=
  let fresh := (List.range (t.nodes.length + 1)).find? fun n =>
    !t.has (directory ++ [temporaryName n])
  directory ++ [temporaryName (fresh.getD 0)]

/-- The steps that write a record: its directory, unless it is there, and then the file. With atomic
writes the file appears under its name by a rename, when it is whole. The root of the store is
there, since opening it made it, so that one directory is all that may be missing. -/
def writeSteps (s : Store) (t : Tree) (p : Pending) : List Step :=
  (if t.isDirectory p.directory then [] else [.makeDirectory p.directory])
    ++ if s.options.atomicWrites then
      let temporary := temporaryPath t p.directory
      [.create temporary, .append temporary p.text, .rename temporary p.path]
    else [.write p.path p.text]

/-- Writes records in turn, up to the first that fails. -/
def writeAll (s : Store) (t : Tree) : List Pending → Tree × Except Error Unit
  | [] => (t, .ok ())
  | p :: ps =>
    match runSteps t (s.writeSteps t p) with
    | (t, .ok ()) => s.writeAll t ps
    | (t, .error e) => (t, .error (.io e))

/-- Saves a batch: the tree after it, and whether it succeeded. A batch that is refused changes
nothing. -/
def saveAll (s : Store) (t : Tree) (entities : List Entity) (overwrite : Bool) :
    Tree × Except Error Unit :=
  match s.prepareAll t overwrite [] entities with
  | .ok ps => s.writeAll t ps
  | .error e => (t, .error e)

def save (s : Store) (t : Tree) (e : Entity) (overwrite : Bool) : Tree × Except Error Unit :=
  s.saveAll t [e] overwrite

end EntityStore.Store
