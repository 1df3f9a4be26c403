import EntityStore.Assoc
import EntityStore.Files.Path

/-! File trees, and what reading and changing them does. -/
namespace EntityStore

inductive IoError
  | notFound
  | alreadyExists
  | notADirectory
  | isADirectory
  | nameTooLong
  | nullCharacter
  | notText
deriving DecidableEq, Repr

def IoError.message : IoError → String
  | .notFound => "No such file or directory (os error 2)"
  | .alreadyExists => "File exists (os error 17)"
  | .notADirectory => "Not a directory (os error 20)"
  | .isADirectory => "Is a directory (os error 21)"
  | .nameTooLong => "File name too long (os error 36)"
  | .nullCharacter => "file name contained an unexpected NUL byte"
  | .notText => "stream did not contain valid UTF-8"

/-- The content of a file: a text, or bytes that are not the UTF-8 form of one. -/
inductive Content
  | text (s : String)
  | binary (bytes : List UInt8)
deriving DecidableEq, Repr

/-- The content of a file of some bytes. -/
def Content.ofBytes (bytes : ByteArray) : Content :=
  match String.fromUTF8? bytes with
  | some s => .text s
  | none => .binary bytes.toList

inductive Node
  | directory
  | file (content : Content)
deriving DecidableEq, Repr

/-- Directories and regular files below a top directory, by place. -/
structure Tree where
  nodes : List (Path × Node)

namespace Tree

def empty : Tree := ⟨[]⟩

def node? (t : Tree) (p : Path) : Option Node :=
  if p = [] then some .directory else Assoc.find? p t.nodes

def isDirectory (t : Tree) (p : Path) : Bool := t.node? p == some .directory

def isFile (t : Tree) (p : Path) : Bool :=
  match t.node? p with
  | some (.file _) => true
  | _ => false

def has (t : Tree) (p : Path) : Bool := (t.node? p).isSome

def put (t : Tree) (p : Path) (n : Node) : Tree := ⟨Assoc.insert p n t.nodes⟩

def erase (t : Tree) (p : Path) : Tree := ⟨Assoc.erase p t.nodes⟩

/-- The names from a directory down to a place in it. -/
def below? : Path → Path → Option Path
  | [], p => some p
  | _ :: _, [] => none
  | d :: ds, n :: ns => if d = n then below? ds ns else none

/-- The names in a directory, with what they name. -/
def children (t : Tree) (dir : Path) : List (String × Node) :=
  t.nodes.filterMap fun (p, n) => match below? dir p with
    | some [name] => some (name, n)
    | _ => none

/-- Every place below a directory as a path text, directories ending in a slash, sorted. -/
def listing (t : Tree) (dir : Path) : List String :=
  let texts := t.nodes.filterMap fun (p, n) => match below? dir p with
    | some (name :: names) =>
      some ("/".intercalate (name :: names) ++ if n = .directory then "/" else "")
    | _ => none
  texts.mergeSort fun a b => !decide (b < a)

def checkDirectory (t : Tree) (p : Path) : Except IoError Unit :=
  match t.node? p with
  | some .directory => .ok ()
  | some (.file _) => .error .notADirectory
  | none => .error .notFound

/-- Names of more bytes are too long. -/
def maxName : Nat := 255

/-- Path texts of more bytes are too long. -/
def maxPath : Nat := 4095

/-- The place that path components lead to from a directory. All but the last must be there. -/
def walk (t : Tree) (here : Path) : List String → Except IoError Path
  | [] => .ok here
  | c :: cs => do
    t.checkDirectory here
    if c = "" ∨ c = "." then t.walk here cs
    else if c = ".." then t.walk here.dropLast cs
    else if maxName < c.utf8ByteSize then throw .nameTooLong
    else t.walk (here ++ [c]) cs

/-- Fails unless a text may be a path. -/
def checkText (text : String) : Except IoError Unit :=
  if text.toList.contains '\x00' then .error .nullCharacter
  else if text.isEmpty then .error .notFound
  else if maxPath < text.utf8ByteSize then .error .nameTooLong
  else .ok ()

def resolve (t : Tree) (base : Path) (text : String) : Except IoError Path := do
  checkText text
  t.walk (if Path.isAbsolute text then [] else base) (Path.components text)

/-- Makes a directory where there is nothing, in one that is there. -/
def makeDirectory (t : Tree) (p : Path) : Except IoError Tree := do
  if t.has p then throw .alreadyExists
  t.checkDirectory p.dropLast
  return t.put p .directory

/-- Makes the first of some directories, each given by the components that lead to it from the
directory `here`. Each lies in the next one, which is made before it if it is missing. -/
def makeFirst (t : Tree) (here : Path) : List (List String) → Tree × Except IoError Unit
  | [] => (t, .ok ())
  | cs :: above =>
    let make (t : Tree) := do t.makeDirectory (← t.walk here (Path.withoutEndSlashes cs))
    let settle (t : Tree) (e : IoError) : Tree × Except IoError Unit :=
      let present := (t.walk here cs).toOption.any t.isDirectory
      (t, if e = .alreadyExists ∧ present then .ok () else .error e)
    match make t with
    | .ok t => (t, .ok ())
    | .error .notFound =>
      match t.makeFirst here above with
      | (t, .error e) => (t, .error e)
      | (t, .ok ()) =>
        match make t with
        | .ok t => (t, .ok ())
        | .error e => settle t e
    | .error e => settle t e

/-- Makes the directory of a path text, and those above it, where there is nothing. If that fails,
those made before stay. -/
def makeDirectories (t : Tree) (base : Path) (text : String) : Tree × Except IoError Unit :=
  match checkText text with
  | .error e => (t, .error e)
  | .ok () =>
    t.makeFirst (if Path.isAbsolute text then [] else base)
      (Path.components text :: Path.above (Path.names text))

def read (t : Tree) (p : Path) : Except IoError Content :=
  match t.node? p with
  | some (.file c) => .ok c
  | some .directory => .error .isADirectory
  | none => do
    t.checkDirectory p.dropLast
    throw .notFound

def readText (t : Tree) (p : Path) : Except IoError String := do
  match ← t.read p with
  | .text s => return s
  | .binary _ => throw .notText

/-- Writes a file, in place of an old one, all of it or, for what stands in the tree, nothing. -/
def write (t : Tree) (p : Path) (c : Content) : Except IoError Tree := do
  t.checkDirectory p.dropLast
  if t.isDirectory p then throw .isADirectory
  return t.put p (.file c)

def create (t : Tree) (p : Path) : Except IoError Tree := do
  t.checkDirectory p.dropLast
  if t.has p then throw .alreadyExists
  return t.put p (.file (.text ""))

def append (t : Tree) (p : Path) (s : String) : Except IoError Tree := do
  let old ← t.readText p
  return t.put p (.file (.text (old ++ s)))

/-- Moves a file to a place, over the file that stands there. -/
def rename (t : Tree) (source target : Path) : Except IoError Tree := do
  let c ← t.read source
  t.checkDirectory target.dropLast
  if t.isDirectory target then throw .isADirectory
  return (t.erase source).put target (.file c)

end Tree

end EntityStore
