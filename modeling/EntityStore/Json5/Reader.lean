import EntityStore.Json.Basic
import EntityStore.Json5.Token
import EntityStore.Number.Numeral

/-! JSON5 texts: JSON with comments, names as keys, single quotes, and commas before a closing mark.
-/
namespace EntityStore.Json5

/-- The greatest whole number in hexadecimal digits, and one, 2^32. -/
def hexLimit : Nat := 4294967296

/-- A whole number in hexadecimal digits without a sign. -/
def hex? (ds : List Char) : Option Json :=
  if ds.isEmpty then none
  else (Text.fixedHex? ds.length ds).bind fun (n, _) =>
    if n < hexLimit then some (.int n) else none

/-- Whether a decimal numeral starts as one: with a point, or with digits without an idle zero. -/
def startsDecimal (body : List Char) : Bool :=
  match Numeral.spanDigits body with
  | ([], rest) => rest.head? == some '.'
  | (ds, _) => ds.length == 1 || ds.head? != some '0'

/-- A finite float, or a signed 64-bit integer if there is neither a point nor an exponent. -/
def decimal? (cs : List Char) : Option Json :=
  if cs.any fun c => c == '.' || c == 'e' || c == 'E' then
    (Numeral.binary64? cs).bind fun x => if x.isFinite then some (.float x) else none
  else (Numeral.integer? cs).bind fun n => (Numeral.int64? n).map fun _ => .int n

/-- The value of a word. A plus may stand before decimals only. -/
def word? (cs : List Char) : Option Json :=
  if cs = "null".toList then some .null
  else if cs = "true".toList then some (.bool true)
  else if cs = "false".toList then some (.bool false)
  else if cs = "Infinity".toList then some (.float (.infinity false))
  else if cs = "-Infinity".toList then some (.float (.infinity true))
  else if cs = "NaN".toList ∨ cs = "-NaN".toList then some (.float .nan)
  else match cs with
    | '0' :: 'x' :: ds | '0' :: 'X' :: ds => hex? ds
    | cs => if startsDecimal (Numeral.splitSign cs).2 then decimal? cs else none

mutual

/-- A value, and the tokens behind it. Each step takes a token. -/
def value? : Nat → List Token → Option (Json × List Token)
  | 0, _ => none
  | n + 1, ts =>
    match ts with
    | .word cs :: ts => (word? cs).map (·, ts)
    | .str s :: ts => some (.str s, ts)
    | .mark '[' :: ts => items? n [] ts
    | .mark '{' :: ts => members? n [] ts
    | _ => none

/-- The items of an array after those `done`, last first. -/
def items? : Nat → List Json → List Token → Option (Json × List Token)
  | 0, _, _ => none
  | n + 1, done, ts =>
    match ts with
    | .mark ']' :: ts => some (.arr done.reverse, ts)
    | ts => do
      let (v, ts) ← value? n ts
      match ts with
      | .mark ',' :: ts => items? n (v :: done) ts
      | .mark ']' :: ts => some (.arr (v :: done).reverse, ts)
      | _ => none

/-- The members of an object after those `done`. -/
def members? : Nat → List (String × Json) → List Token → Option (Json × List Token)
  | 0, _, _ => none
  | n + 1, done, ts => do
    let (key, ts) ← match ts with
      | .word cs :: ts => (name? cs).map fun key => (some key, ts)
      | .str s :: ts => some (some s, ts)
      | .mark '}' :: ts => some (none, ts)
      | _ => none
    match key, ts with
    | none, ts => some (.obj done, ts)
    | some key, .mark ':' :: ts =>
      let (v, ts) ← value? n ts
      let done := Assoc.insert key v done
      match ts with
      | .mark ',' :: ts => members? n done ts
      | .mark '}' :: ts => some (.obj done, ts)
      | _ => none
    | _, _ => none

end

def parse? (text : String) : Option (List (String × Json)) := do
  let ts ← tokens? text.toList
  match ← value? (2 * ts.length + 1) ts with
  | (.obj members, []) => some members
  | _ => none

end EntityStore.Json5
