import EntityStore.Number.Numeral
import EntityStore.Time.Calendar

/-! Instants in UTC and their RFC 3339 texts. -/
namespace EntityStore

/-- An instant: seconds from 1970-01-01T00:00:00Z without leap seconds, and nanoseconds in the
second. A second with a billion nanoseconds or more runs on into a leap second. -/
structure Timestamp where
  seconds : Int
  nanos : Nat
  bounded : nanos < 2000000000
deriving DecidableEq

namespace Timestamp

/-- Whether clocks show the instant: they show leap seconds at the end of a minute only. -/
def OnClock (t : Timestamp) : Prop := t.nanos < 1000000000 ∨ t.seconds % 60 = 59

instance (t : Timestamp) : Decidable t.OnClock :=
  inferInstanceAs (Decidable (t.nanos < 1000000000 ∨ t.seconds % 60 = 59))

/-- The instant with a count of seconds and of nanoseconds, if clocks show it. -/
def make? (seconds : Int) (nanos : Nat) : Option Timestamp :=
  if h : nanos < 2000000000 then
    let t : Timestamp := ⟨seconds, nanos, h⟩
    if t.OnClock then some t else none
  else none

def order (s t : Timestamp) : Ordering :=
  (compare s.seconds t.seconds).then (compare s.nanos t.nanos)

def date (t : Timestamp) : Calendar.Date := .ofDays (t.seconds / 86400)

/-- A number in decimal with zeros in front up to a width. -/
def padded (width n : Nat) : List Char :=
  let ds := Decimal.digits n
  Decimal.zeros (width - ds.length) ++ ds

/-- The fraction of a second in the fewest groups of three digits that lose nothing. -/
def fractionText (nanos : Nat) : List Char :=
  if nanos = 0 then []
  else if nanos % 1000000 = 0 then '.' :: padded 3 (nanos / 1000000)
  else if nanos % 1000 = 0 then '.' :: padded 6 (nanos / 1000)
  else '.' :: padded 9 nanos

/-- A year in four digits; beyond them with its sign. -/
def yearText (y : Int) : List Char :=
  if 0 ≤ y ∧ y ≤ 9999 then padded 4 y.toNat
  else (if y < 0 then '-' else '+') :: padded 4 y.natAbs

/-- The RFC 3339 text in UTC, with `Z`. A leap second is counted as one more, so that it is second
60 at the end of a minute. -/
def render (t : Timestamp) : String :=
  let d := t.date
  let s := (t.seconds % 86400).toNat
  let leap := t.nanos / 1000000000
  String.ofList (yearText d.year ++ '-' :: padded 2 d.month ++ '-' :: padded 2 d.day
    ++ 'T' :: padded 2 (s / 3600) ++ ':' :: padded 2 (s / 60 % 60)
    ++ ':' :: padded 2 (s % 60 + leap) ++ fractionText (t.nanos % 1000000000) ++ ['Z'])

/-- A number of exactly `width` digits, and the rest. -/
def fixed? (width : Nat) (cs : List Char) : Option (Nat × List Char) :=
  let ds := cs.take width
  if ds.length = width ∧ ds.all Char.isDigit then some (Numeral.value ds, cs.drop width) else none

/-- The rest after a character of a class. -/
def char? (p : Char → Bool) : List Char → Option (List Char)
  | [] => none
  | c :: cs => if p c then some cs else none

/-- The nanoseconds of a fraction: digits after the ninth do not count. -/
def fraction? : List Char → Option (Nat × List Char)
  | '.' :: cs =>
    let (ds, rest) := Numeral.spanDigits cs
    if ds.isEmpty then none
    else some (Numeral.value (ds.take 9 ++ Decimal.zeros (9 - ds.length)), rest)
  | cs => some (0, cs)

/-- The seconds that local time is ahead of UTC. Minus may also be the minus sign U+2212. -/
def offset? : List Char → Option (Int × List Char)
  | [] => none
  | c :: cs =>
    if c = 'Z' ∨ c = 'z' then some (0, cs)
    else if c = '+' ∨ c = '-' ∨ c = '\u2212' then do
      let (h, cs) ← fixed? 2 cs
      let cs ← char? (· == ':') cs
      let (m, cs) ← fixed? 2 cs
      if h ≤ 23 ∧ m ≤ 59 then
        let s : Int := (h * 60 + m) * 60
        some (if c = '+' then s else -s, cs)
      else none
    else none

/-- The instant of an RFC 3339 text. Between date and time stands `T`, `t` or a space; second 60 is
a leap second in any minute. -/
def parse? (text : String) : Option Timestamp := do
  let (year, cs) ← fixed? 4 text.toList
  let cs ← char? (· == '-') cs
  let (month, cs) ← fixed? 2 cs
  let cs ← char? (· == '-') cs
  let (day, cs) ← fixed? 2 cs
  let cs ← char? (fun c => c == 'T' || c == 't' || c == ' ') cs
  let (hour, cs) ← fixed? 2 cs
  let cs ← char? (· == ':') cs
  let (minute, cs) ← fixed? 2 cs
  let cs ← char? (· == ':') cs
  let (second, cs) ← fixed? 2 cs
  let (nanos, cs) ← fraction? cs
  let (offset, cs) ← offset? cs
  let date : Calendar.Date := ⟨year, month, day⟩
  if cs.isEmpty ∧ date.valid ∧ hour ≤ 23 ∧ minute ≤ 59 ∧ second ≤ 60 then
    let seconds := date.toDays * 86400 + (hour * 3600 + minute * 60 + min second 59 : Nat) - offset
    make? seconds (if second = 60 then nanos + 1000000000 else nanos)
  else none

end Timestamp

end EntityStore
