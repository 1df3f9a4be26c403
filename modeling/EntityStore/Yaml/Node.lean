import EntityStore.Json.Basic
import EntityStore.Number.Numeral
import EntityStore.Yaml.Scanner

/-! The nodes of a YAML document, and the one document of a text. -/
namespace EntityStore.Yaml

/-- A value without members. A number that is no integer has its text. -/
inductive Scalar
  | null
  | bool (b : Bool)
  | int (n : Int)
  | real (text : String)
  | text (s : String)
deriving DecidableEq, Repr

inductive Node
  | scalar (s : Scalar)
  | sequence (items : List Json)
  | mapping (members : List (String × Json))

/-- A whole number in a base with an optional sign, if it is a 64-bit one. -/
def inBase? (base : Nat) (cs : List Char) : Option Int := do
  let (negative, ds) := Numeral.splitSign cs
  if ds.isEmpty then none
  else do
    let n ← ds.foldlM (fun n c => do
      let d ← Text.hexDigit? c
      if d < base then some (base * n + d) else none) 0
    (Numeral.int64? (if negative then -(n : Int) else n)).map (·.toInt)

/-- A 64-bit integer. Digits in base 16 or 8 have a mark in front, and decimal ones may have a plus
before a sign. -/
def integer? (cs : List Char) : Option Int :=
  let marked := match cs with
    | '0' :: 'x' :: ds => inBase? 16 ds
    | '0' :: 'o' :: ds => inBase? 8 ds
    | '+' :: ds => inBase? 10 ds
    | _ => none
  marked.or (inBase? 10 cs)

def realWords : List String :=
  [".inf", ".Inf", ".INF", "+.inf", "+.Inf", "+.INF", "-.inf", "-.Inf", "-.INF", ".nan", ".NaN",
    ".NAN"]

def isReal (s : String) : Bool :=
  realWords.contains s
    || (s.toList.any Char.isDigit && (Numeral.binary64? s.toList).isSome)

/-- What a plain scalar without a tag is. -/
def Scalar.ofPlain (s : String) : Scalar :=
  match integer? s.toList with
  | some n => .int n
  | none =>
    if s = "" ∨ s = "~" ∨ s = "null" then .null
    else if s = "true" then .bool true
    else if s = "false" then .bool false
    else if isReal s then .real s
    else .text s

/-- What a plain scalar is by its tag. It is null if it cannot be what the tag asks for. -/
def Scalar.tagged (t : Tag) (s : String) : Scalar :=
  match t with
  | .core "bool" => if s = "true" then .bool true else if s = "false" then .bool false else .null
  | .core "int" => ((inBase? 10 s.toList).map .int).getD .null
  | .core "float" => if isReal s then .real s else .null
  | .core "null" => .null
  | _ => .text s

/-- The scalar of a token under an optional tag. In quotes or in a block it is a text. -/
def Scalar.ofToken (t : Option Tag) (plain : Bool) (s : String) : Scalar :=
  match plain, t with
  | false, _ => .text s
  | true, none => .ofPlain s
  | true, some t => .tagged t s

/-- The value of a node. The words for infinity and for no number have none. -/
def Node.toJson? : Node → Option Json
  | .scalar .null => some .null
  | .scalar (.bool b) => some (.bool b)
  | .scalar (.int n) => some (.int n)
  | .scalar (.real s) => (Numeral.binary64? s.toList).map .float
  | .scalar (.text s) => some (.str s)
  | .sequence items => some (.arr items)
  | .mapping members => some (.obj members)

/-- The text of a node as a key. Null and collections have none. -/
def Node.keyText? : Node → Option String
  | .scalar (.bool b) => some (if b then "true" else "false")
  | .scalar (.int n) => some (String.ofList (Decimal.ofInt n))
  | .scalar (.real s) => some s
  | .scalar (.text s) => some s
  | _ => none

def Node.scalar? : Node → Option Scalar
  | .scalar s => some s
  | _ => none

/-- Where a reader stands: the tokens ahead, and the nodes of the anchors behind. -/
structure Place where
  tokens : List Token
  anchors : List (String × Node)

/-- What stands without text. -/
def empty : Node := .scalar .null

/-- Whether the next token is one of some. -/
def Place.nextIn (p : Place) (ts : List Token) : Bool := p.tokens.head?.any ts.contains

def Place.skip (p : Place) : Place := { p with tokens := p.tokens.drop 1 }

/-- The place behind the anchor and the tag of a node, in either order, with what they are. -/
def Place.properties (p : Place) : Option String × Option Tag × Place :=
  match p.tokens with
  | .anchor a :: .tag t :: ts | .tag t :: .anchor a :: ts =>
    (some a, some t, { p with tokens := ts })
  | .anchor a :: ts => (some a, none, { p with tokens := ts })
  | .tag t :: ts => (none, some t, { p with tokens := ts })
  | _ => (none, none, p)

/-- The members of a mapping so far, and its keys as they are. -/
structure Members where
  keys : List Scalar
  members : List (String × Json)

/-- Adds a member. A key may stand once. -/
def Members.add? (m : Members) (key value : Node) : Option Members := do
  let k ← key.scalar?
  let text ← key.keyText?
  if m.keys.contains k then none
  else return ⟨k :: m.keys, Assoc.insert text (← value.toJson?) m.members⟩

def Members.node (m : Members) : Node := .mapping m.members

mutual

/-- A node. Blocks may start here, and with `dash` the items of a sequence without a block of its
own. Each step takes a token. -/
def node? : Nat → Bool → Bool → Place → Option (Node × Place)
  | 0, _, _, _ => none
  | n + 1, block, dash, p =>
    match p.tokens with
    | .alias a :: ts => (Assoc.find? a p.anchors).map (·, { p with tokens := ts })
    | _ => do
      let (name, t, p) := p.properties
      let p := match name with
        | some a => { p with anchors := Assoc.insert a empty p.anchors }
        | none => p
      let (v, p) ← content? n block dash t (name.isSome || t.isSome) p
      match name with
      | some a => return (v, { p with anchors := Assoc.insert a v p.anchors })
      | none => return (v, p)

/-- What stands behind the anchor and the tag of a node. Behind those nothing may stand. -/
def content? : Nat → Bool → Bool → Option Tag → Bool → Place → Option (Node × Place)
  | 0, _, _, _, _, _ => none
  | n + 1, block, dash, t, mayBeEmpty, p =>
    match p.tokens with
    | .scalar plain s :: _ => some (.scalar (.ofToken t plain s), p.skip)
    | .flowSequence :: _ => flowItems? n true [] p.skip
    | .flowMapping :: _ => flowMembers? n true ⟨[], []⟩ p.skip
    | ts =>
      if dash && ts.head? == some .entry then items? n false [] p
      else if block && ts.head? == some .blockSequence then items? n true [] p.skip
      else if block && ts.head? == some .blockMapping then members? n ⟨[], []⟩ p.skip
      else if mayBeEmpty then some (.scalar (.ofToken t true ""), p)
      else none

/-- The items of a sequence after those `done`, last first, up to the end of its block if it has
one. -/
def items? : Nat → Bool → List Json → Place → Option (Node × Place)
  | 0, _, _, _ => none
  | n + 1, block, done, p =>
    if p.nextIn [.entry] then do
      let p := p.skip
      let ends := if block then [.entry, .blockEnd] else [.entry, .key, .value, .blockEnd]
      let (v, p) ← if p.nextIn ends then some (empty, p) else node? n true false p
      items? n block ((← v.toJson?) :: done) p
    else if !block then some (.sequence done.reverse, p)
    else if p.nextIn [.blockEnd] then some (.sequence done.reverse, p.skip)
    else none

/-- The members of a mapping in a block. -/
def members? : Nat → Members → Place → Option (Node × Place)
  | 0, _, _ => none
  | n + 1, done, p =>
    let ends := [.key, .value, .blockEnd]
    if p.nextIn [.blockEnd] then some (done.node, p.skip)
    else if p.nextIn [.key, .value] then do
      let (key, p) ← if p.nextIn [.value] then some (empty, p)
        else if p.skip.nextIn ends then some (empty, p.skip)
        else node? n true true p.skip
      let (v, p) ← if !p.nextIn [.value] then some (empty, p)
        else if p.skip.nextIn ends then some (empty, p.skip)
        else node? n true true p.skip
      members? n (← done.add? key v) p
    else none

/-- A member of a flow collection, whose key may lack a value. -/
def flowMember? : Nat → Place → Option (Node × Node × Place)
  | 0, _ => none
  | n + 1, p => do
    let ends := [.value, .flowEntry, .flowSequenceEnd, .flowMappingEnd]
    let p := if p.nextIn [.key] then p.skip else p
    let (key, p) ← if p.nextIn ends then some (empty, p) else node? n false false p
    if !p.nextIn [.value] then return (key, empty, p)
    else
      let p := p.skip
      let (v, p) ← if p.nextIn ends then some (empty, p) else node? n false false p
      return (key, v, p)

/-- The items of a sequence in brackets after those `done`, last first. A pair of a key and a value
is a mapping of its own. -/
def flowItems? : Nat → Bool → List Json → Place → Option (Node × Place)
  | 0, _, _, _ => none
  | n + 1, first, done, p =>
    if p.nextIn [.flowSequenceEnd] then some (.sequence done.reverse, p.skip)
    else if !first && !p.nextIn [.flowEntry] then none
    else
      let p := if first then p else p.skip
      if p.nextIn [.flowSequenceEnd] then some (.sequence done.reverse, p.skip)
      else do
        let (v, p) ← if p.nextIn [.key, .value] then do
            let (key, v, p) ← flowMember? n p
            return ((← (Members.mk [] []).add? key v).node, p)
          else node? n false false p
        flowItems? n false ((← v.toJson?) :: done) p

/-- The members of a mapping in braces. -/
def flowMembers? : Nat → Bool → Members → Place → Option (Node × Place)
  | 0, _, _, _ => none
  | n + 1, first, done, p =>
    if p.nextIn [.flowMappingEnd] then some (done.node, p.skip)
    else if !first && !p.nextIn [.flowEntry] then none
    else
      let p := if first then p else p.skip
      if p.nextIn [.flowMappingEnd] then some (done.node, p.skip)
      else if p.nextIn [.flowEntry] then none
      else do
        let (key, v, p) ← flowMember? n p
        flowMembers? n false (← done.add? key v) p

end

/-- What follows the directives before a document. At most one of them states a version. -/
def afterDirectives? (versions : Nat) : List Token → Option (List Token)
  | .directive isVersion :: ts =>
    let versions := versions + if isVersion then 1 else 0
    if 1 < versions then none else afterDirectives? versions ts
  | ts => some ts

/-- What follows the start of a document, if it is well formed. Behind directives its mark has to
stand. -/
def afterStart? (ts : List Token) : Option (List Token) :=
  match ts with
  | .directive _ :: _ => do
    match ← afterDirectives? 0 ts with
    | .documentStart :: ts => some ts
    | _ => none
  | .documentStart :: ts => some ts
  | ts => some ts

/-- The node of the first document of some tokens, and those behind it. -/
def document? (ts : List Token) : Option (Node × List Token) := do
  let ts ← afterStart? ts
  match ts with
  | [] | .directive _ :: _ | .documentStart :: _ | .documentEnd :: _ => some (empty, ts)
  | ts =>
    let (v, p) ← node? (8 * ts.length + 8) true false ⟨ts, []⟩
    return (v, p.tokens)

/-- The members of a YAML text with one document that is a mapping, or without a document. -/
def parse? (text : String) : Option (List (String × Json)) := do
  let ends (ts : List Token) := ts.dropWhile (· == .documentEnd)
  match ends (← tokens? text) with
  | [] => some []
  | ts =>
    match ← document? ts with
    | (.mapping members, rest) => if (ends rest).isEmpty then some members else none
    | _ => none

end EntityStore.Yaml
