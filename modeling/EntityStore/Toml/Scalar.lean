import EntityStore.Json.Basic
import EntityStore.Text.CodePoint
import EntityStore.Text.Hexadecimal
import EntityStore.Time.Timestamp

/-! Numbers, dates and words of TOML. Dates and times become texts. -/
namespace EntityStore.Toml

/-- Digits that single underscores may part, without the underscores. -/
def grouped? (p : Char → Bool) : List Char → Option (List Char)
  | [] => none
  | [c] => if p c then some [c] else none
  | c :: '_' :: cs => if p c then (grouped? p cs).map (c :: ·) else none
  | c :: cs => if p c then (grouped? p cs).map (c :: ·) else none

def integer? (n : Int) : Option Json := (Numeral.int64? n).map fun _ => .int n

/-- The whole number of digits in a base, after digits that denote `n`. -/
def valueIn (base n : Nat) : List Char → Nat
  | [] => n
  | c :: cs => valueIn base (base * n + (Text.hexDigit? c).getD 0) cs

def inBase? (base : Nat) (cs : List Char) : Option Json := do
  let ds ← grouped? (fun c => (Text.hexDigit? c).any (· < base)) cs
  integer? (valueIn base 0 ds)

/-- The digits at the start of a text, grouped or not, and the rest. -/
def spanGrouped? (cs : List Char) : Option (List Char × List Char) := do
  let p (c : Char) := c.isDigit || c == '_'
  let ds ← grouped? Char.isDigit (cs.takeWhile p)
  return (ds, cs.dropWhile p)

/-- An exponent behind its mark, or nothing. -/
def exponent? : List Char → Option Int
  | [] => some 0
  | c :: cs =>
    if c = 'e' ∨ c = 'E' then do
      let (negative, body) := Numeral.splitSign cs
      let ds ← grouped? Char.isDigit body
      return if negative then -(Numeral.value ds : Int) else Numeral.value ds
    else none

/-- A float of digits before and after the point and an exponent. One too great is refused. -/
def float? (negative : Bool) (whole fraction : List Char) (e : Int) : Option Json :=
  let x := Numeral.ofScientific negative (Numeral.value (whole ++ fraction)) (e - fraction.length)
  if x = .infinity false then none else some (.float x)

/-- A decimal number after its sign. -/
def decimal? (negative : Bool) (body : List Char) : Option Json := do
  let (ds, rest) ← spanGrouped? body
  if ds.head? = some '0' ∧ 1 < ds.length then none
  else match rest with
    | [] => integer? (if negative then -(Numeral.value ds : Int) else Numeral.value ds)
    | '.' :: tail => do
      let (fs, tail) ← spanGrouped? tail
      float? negative ds fs (← exponent? tail)
    | tail => do float? negative ds [] (← exponent? tail)

def number? (cs : List Char) : Option Json :=
  match cs with
  | '0' :: 'x' :: ds => inBase? 16 ds
  | '0' :: 'o' :: ds => inBase? 8 ds
  | '0' :: 'b' :: ds => inBase? 2 ds
  | cs =>
    let (negative, body) := Numeral.splitSign cs
    if body = "inf".toList then some (.float (.infinity negative))
    else if body = "nan".toList then some (.float .nan)
    else decimal? negative body

def date? (cs : List Char) : Option (List Char × List Char) := do
  let (year, rest) ← Timestamp.fixed? 4 cs
  let rest ← Timestamp.char? (· == '-') rest
  let (month, rest) ← Timestamp.fixed? 2 rest
  let rest ← Timestamp.char? (· == '-') rest
  let (day, rest) ← Timestamp.fixed? 2 rest
  if (Calendar.Date.mk year month day).valid then some (cs.take 10, rest) else none

/-- The fraction of a second without idle zeros. -/
def fractionText (nanos : Nat) : List Char :=
  if nanos = 0 then []
  else '.' :: ((Timestamp.padded 9 nanos).reverse.dropWhile (· == '0')).reverse

/-- A time of day, and the rest. -/
def time? (cs : List Char) : Option (List Char × List Char) := do
  let (hour, rest) ← Timestamp.fixed? 2 cs
  let rest ← Timestamp.char? (· == ':') rest
  let (minute, rest) ← Timestamp.fixed? 2 rest
  let rest ← Timestamp.char? (· == ':') rest
  let (second, rest) ← Timestamp.fixed? 2 rest
  let (nanos, rest) ← Timestamp.fraction? rest
  if hour ≤ 23 ∧ minute ≤ 59 ∧ second ≤ 60 then some (cs.take 8 ++ fractionText nanos, rest)
  else none

/-- The offset at the end of a date and time, or nothing. -/
def offset? (cs : List Char) : Option (List Char) :=
  match cs with
  | [] => some []
  | ['Z'] | ['z'] => some ['Z']
  | sign :: rest =>
    if sign = '+' ∨ sign = '-' then do
      let (h, rest) ← Timestamp.fixed? 2 rest
      let rest ← Timestamp.char? (· == ':') rest
      let (m, rest) ← Timestamp.fixed? 2 rest
      if rest.isEmpty ∧ h ≤ 23 ∧ m ≤ 59 then
        some (if h = 0 ∧ m = 0 then '+' :: cs.drop 1 else cs)
      else none
    else none

/-- A date, a time or both, with an offset from UTC if there are both. -/
def dateTime? (cs : List Char) : Option (List Char) :=
  match date? cs with
  | some (d, []) => some d
  | some (d, mark :: rest) =>
    if mark = 'T' ∨ mark = 't' ∨ mark = ' ' then do
      let (t, rest) ← time? rest
      return d ++ 'T' :: t ++ (← offset? rest)
    else none
  | none => match time? cs with
    | some (t, []) => some t
    | _ => none

def scalar? (cs : List Char) : Option Json :=
  if cs = "true".toList then some (.bool true)
  else if cs = "false".toList then some (.bool false)
  else match dateTime? cs with
    | some text => some (.str (String.ofList text))
    | none => number? cs

end EntityStore.Toml
