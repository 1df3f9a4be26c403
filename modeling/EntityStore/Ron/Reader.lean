import EntityStore.Json.Basic
import EntityStore.Number.Numeral
import EntityStore.Ron.Token

/-! RON texts: structures with named fields, tuples, lists, maps and options. -/
namespace EntityStore.Ron

/-- The characters of whole numbers in any base. -/
def isIntChar (c : Char) : Bool := (Text.hexDigit? c).isSome || c == '_'

/-- The characters of floats. -/
def isFloatChar (c : Char) : Bool :=
  c.isDigit || c == 'e' || c == 'E' || c == '.' || c == '+' || c == '-' || c == '_'

/-- The base that a numeral states in front, and its digits. -/
def splitBase : List Char → Nat × List Char
  | '0' :: 'x' :: ds => (16, ds)
  | '0' :: 'b' :: ds => (2, ds)
  | '0' :: 'o' :: ds => (8, ds)
  | ds => (10, ds)

/-- The whole number that digits denote, after digits that denote `value`. Underscores count for
nothing. -/
def wholeFrom? (base value : Nat) : List Char → Option Nat
  | [] => some value
  | '_' :: cs => wholeFrom? base value cs
  | c :: cs => do
    let d ← Text.hexDigit? c
    if d < base then wholeFrom? base (base * value + d) cs else none

/-- The count of unsigned 64-bit integers, 2^64. -/
def unsignedLimit : Nat := 18446744073709551616

/-- A whole number. Without a sign it may be as great as unsigned 64-bit integers are, and one that
is no signed one becomes a float. -/
def integer? (cs : List Char) : Option Json := do
  let signed := cs.head? == some '+' || cs.head? == some '-'
  let (negative, body) := Numeral.splitSign cs
  let (base, ds) := splitBase body
  if ds.isEmpty || ds.head? == some '_' then none
  else do
    let n ← wholeFrom? base 0 ds
    match Numeral.int64? (if negative then -(n : Int) else n) with
    | some i => some (.int i.toInt)
    | none => if signed || unsignedLimit ≤ n then none else some (.float (.ofInt n))

/-- A float in decimal digits without underscores. -/
def float? (cs : List Char) : Option Json :=
  if cs.all fun c => isFloatChar c && c != '_' then (Numeral.binary64? cs).map .float else none

/-- The value of a number. It is a float if the characters of floats reach further. -/
def number? (cs : List Char) : Option Json :=
  if cs = "-inf".toList then some (.float (.infinity true))
  else
    let body := if cs.head? == some '+' || cs.head? == some '-' then cs.drop 1 else cs
    if (body.takeWhile isIntChar).length < (body.takeWhile isFloatChar).length then float? cs
    else (integer? cs).or (float? cs)

def named? (s : String) : Option Json :=
  match s with
  | "true" => some (.bool true)
  | "false" => some (.bool false)
  | "inf" => some (.float (.infinity false))
  | "NaN" => some (.float .nan)
  | "None" => some .null
  | _ => none

mutual

/-- A value, and the tokens behind it. Each step takes a token. -/
def value? : Nat → List Token → Option (Json × List Token)
  | 0, _ => none
  | n + 1, ts =>
    match ts with
    | .str s :: ts => some (.str s, ts)
    | .number cs :: ts => (number? cs).map (·, ts)
    | .unit :: ts => some (.null, ts)
    | .mark '(' :: ts => group? n ts
    | .mark '[' :: ts => items? n ']' [] ts
    | .mark '{' :: ts => entries? n [] ts
    | .name s :: ts =>
      match named? s with
      | some v => some (v, ts)
      | none =>
        if s = "Some" then option? n ts
        else match ts with
          | .unit :: ts => some (.arr [], ts)
          | .mark '(' :: ts => group? n ts
          | ts => some (.null, ts)
    | _ => none

/-- The value in an option behind its name. -/
def option? : Nat → List Token → Option (Json × List Token)
  | 0, _ => none
  | n + 1, ts =>
    match ts with
    | .mark '(' :: ts => do
      let (v, ts) ← value? n ts
      match ts with
      | .mark ',' :: .mark ')' :: ts | .mark ')' :: ts => some (v, ts)
      | _ => none
    | _ => none

/-- A structure behind its bracket if a field comes first, and a tuple otherwise. -/
def group? : Nat → List Token → Option (Json × List Token)
  | 0, _ => none
  | n + 1, ts =>
    match ts with
    | .name _ :: .mark ':' :: _ => members? n [] ts
    | _ => items? n ')' [] ts

/-- The items up to a closing bracket, after those `done`, last first. -/
def items? : Nat → Char → List Json → List Token → Option (Json × List Token)
  | 0, _, _, _ => none
  | n + 1, close, done, ts =>
    if ts.head? = some (.mark close) then some (.arr done.reverse, ts.drop 1)
    else do
      let (v, ts) ← value? n ts
      match ts with
      | .mark ',' :: ts => items? n close (v :: done) ts
      | .mark c :: ts => if c = close then some (.arr (v :: done).reverse, ts) else none
      | _ => none

/-- The fields of a structure after those `done`. -/
def members? : Nat → List (String × Json) → List Token → Option (Json × List Token)
  | 0, _, _ => none
  | n + 1, done, ts =>
    match ts with
    | .mark ')' :: ts => some (.obj done, ts)
    | .name key :: .mark ':' :: ts => do
      let (v, ts) ← value? n ts
      let done := Assoc.insert key v done
      match ts with
      | .mark ',' :: ts => members? n done ts
      | .mark ')' :: ts => some (.obj done, ts)
      | _ => none
    | _ => none

/-- The entries of a map after those `done`. Its keys are texts. -/
def entries? : Nat → List (String × Json) → List Token → Option (Json × List Token)
  | 0, _, _ => none
  | n + 1, done, ts =>
    match ts with
    | .mark '}' :: ts => some (.obj done, ts)
    | .str key :: .mark ':' :: ts => do
      let (v, ts) ← value? n ts
      let done := Assoc.insert key v done
      match ts with
      | .mark ',' :: ts => entries? n done ts
      | .mark '}' :: ts => some (.obj done, ts)
      | _ => none
    | _ => none

end

/-- The extensions of the format that a text may ask for. They change no value. -/
def extensions : List String := ["unwrap_newtypes", "implicit_some", "unwrap_variant_newtypes"]

/-- What follows the names of extensions. -/
def afterExtensions? : List Token → Option (List Token)
  | .name s :: .mark ',' :: .mark ')' :: .mark ']' :: ts
  | .name s :: .mark ')' :: .mark ']' :: ts => if extensions.contains s then some ts else none
  | .name s :: .mark ',' :: ts => if extensions.contains s then afterExtensions? ts else none
  | _ => none

/-- What follows the attributes at the start of a text. Each step takes one. -/
def afterAttributes? : Nat → List Token → Option (List Token)
  | n + 1, .mark '#' :: ts =>
    match ts with
    | .mark '!' :: .mark '[' :: .name "enable" :: .mark '(' :: ts =>
      (afterExtensions? ts).bind (afterAttributes? n)
    | _ => none
  | _, ts => some ts

/-- The members of a RON text that is a structure or a map. -/
def parse? (text : String) : Option (List (String × Json)) := do
  let ts ← tokens? text.toList
  let ts ← afterAttributes? ts.length ts
  match ← value? (3 * ts.length + 1) ts with
  | (.obj members, []) => some members
  | _ => none

end EntityStore.Ron
