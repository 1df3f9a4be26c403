import EntityStore.Json.Basic
import EntityStore.Text.Case
import EntityStore.Number.Numeral
import EntityStore.Text.Blank
import EntityStore.Text.Split

/-! Layers of settings: each is laid over those before it, key by key. -/
namespace EntityStore.Settings

/-- A key without its letter case. -/
def foldKey (key : String) : String := String.ofList (Text.folded key)

/-- The characters of names that dots join into a path. -/
def isNameChar (c : Char) : Bool := c.isAlphanum || c == ' ' || c == '_' || c == '-'

/-- A step into a value: to a member of an object, or to an item of an array by its place, which
counts from the end if it is negative. -/
inductive Step
  | member (key : String)
  | item (place : Int)
deriving DecidableEq, Repr

/-- The place that a text behind an opening bracket states: an integer with the closing bracket. -/
def place? (cs : List Char) : Option Int :=
  let isBlank (c : Char) := c == ' ' || c == '\t'
  match (Text.trimEndBy isBlank (cs.dropLast.dropWhile isBlank)), cs.getLast? with
  | '+' :: _, _ => none
  | inner, some ']' => do
    let n ← Numeral.integer? inner
    (Numeral.int64? n).map fun _ => n
  | _, _ => none

/-- The steps of a name with places in brackets behind it. -/
def steps? (cs : List Char) : Option (List Step) :=
  match Text.split '[' cs with
  | [] => none
  | name :: places =>
    if name.isEmpty || !name.all isNameChar then none
    else (places.mapM place?).map fun ps => .member (String.ofList name) :: ps.map .item

/-- The path that a key of a layer states: names with dots between them, and places in brackets. Any
other text is a name of its own. -/
def keyPath (key : String) : List Step :=
  match (Text.split '.' key.toList).mapM steps? with
  | some parts => parts.flatten
  | none => [.member key]

/-- The members of an object; other values have none. -/
def membersOf : Json → List (String × Json)
  | .obj members => members
  | _ => []

/-- The items of an array; other values have none. -/
def itemsOf : Json → List Json
  | .arr items => items
  | _ => []

/-- An array with a new item at a place, behind as many nulls as that takes. A place before the
first item is none. -/
def putItem (items : List Json) (place : Int) (v : Json) : List Json :=
  let i := if place < 0 then items.length + place else place
  if i < 0 then items
  else (items ++ List.replicate (i.toNat + 1 - items.length) Json.null).set i.toNat v

/-- The item of an array at a place, null where there is none. -/
def itemAt (items : List Json) (place : Int) : Json :=
  let i := if place < 0 then items.length + place else place
  if i < 0 then .null else items[i.toNat]?.getD .null

mutual

/-- What stands in the place of `old` after a value is laid over it. An object adds its members, and
any other value replaces the old one. -/
def overlay (old : Option Json) : Json → Json
  | .obj members => overlayMembers (old.getD (.obj [])) members
  | v => v

/-- A value after members are laid over its own, one after the other. -/
def overlayMembers (old : Json) : List (String × Json) → Json
  | [] => old
  | (key, v) :: rest =>
    let k := foldKey key
    overlayMembers (.obj (Assoc.insert k (overlay (old.member? k) v) (membersOf old))) rest

end

/-- A value after another is laid over what stands at a path in it. A value on the way that is no
object or no array, as the path has it, gives way to an empty one, and so does an item to the value
at its place. -/
def overlayAt (old : Json) : List Step → Json → Json
  | [], v => v
  | [.member key], v => overlayMembers old [(key, v)]
  | .member key :: path, v =>
    let k := foldKey key
    .obj (Assoc.insert k (overlayAt ((old.member? k).getD .null) path v) (membersOf old))
  | .item place :: path, v =>
    let items := itemsOf old
    .arr (putItem items place (overlayAt (itemAt items place) path v))

/-- The values of a layer laid over those of the layers before it. -/
def addLayer (old : Json) (layer : List (String × Json)) : Json :=
  layer.foldl (fun j (key, v) => overlayAt j (keyPath key) v) old

/-- The values of layers, each laid over those before it. -/
def addLayers (layers : List (List (String × Json))) : Json := layers.foldl addLayer (.obj [])

end EntityStore.Settings
