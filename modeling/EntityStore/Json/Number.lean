import EntityStore.Json.Basic
import EntityStore.Number.Numeral

/-! Numbers of JSON texts. A whole number in the signed or unsigned 64-bit range is an integer. Any
other number is a float, read through a significand of 64 bits that one multiplication or division
scales, so that it may miss the nearest float by a step. -/
namespace EntityStore.Json

/-- A significand of at most 64 bits times a power of ten. -/
structure Scaled where
  significand : Nat
  exponent : Int

/-- The count of unsigned 64-bit integers, 2^64. -/
def unsignedLimit : Nat := 18446744073709551616

/-- Whether a digit fits behind a significand. -/
def Scaled.fits (s : Scaled) (c : Char) : Bool :=
  10 * s.significand + (c.toNat - '0'.toNat) < unsignedLimit

def Scaled.push (s : Scaled) (c : Char) (step : Int) : Scaled :=
  ⟨10 * s.significand + (c.toNat - '0'.toNat), s.exponent + step⟩

/-- Digits before the point: from the first that does not fit on, each is worth a zero. -/
def Scaled.whole (s : Scaled) : List Char → Scaled
  | [] => s
  | c :: cs =>
    if s.fits c then whole (s.push c 0) cs
    else ⟨s.significand, s.exponent + (cs.length + 1)⟩

/-- Digits after the point: from the first that does not fit on, they are dropped. -/
def Scaled.fraction (s : Scaled) : List Char → Scaled
  | [] => s
  | c :: cs => if s.fits c then fraction (s.push c (-1)) cs else s

/-- The nearest float to a power of ten. -/
def powerOfTen (n : Nat) : Binary64 := .ofRatio false (Nat.pow 10 n) 1

/-- Divides by 10^308 `n` times and then by 10^r; zero stays zero. -/
def descend (r : Nat) : Nat → Binary64 → Binary64
  | 0, x => x.div (powerOfTen r)
  | n + 1, x => if x.isZero then x else descend r n (x.div (powerOfTen 308))

/-- The float that a scaled significand is read as; none when it is too great. -/
def Scaled.toFloat? (s : Scaled) : Option Binary64 :=
  let x := Binary64.ofInt s.significand
  if x.isZero then some x
  else if 308 < s.exponent then none
  else if 0 ≤ s.exponent then
    let y := x.mul (powerOfTen s.exponent.toNat)
    if y.isFinite then some y else none
  else
    let e := (-s.exponent).toNat
    let n := (e - 1) / 308
    some (descend (e - 308 * n) n x)

/-- The value of digits before the point, digits after it and an exponent, if the text has a point
or an exponent. -/
def float? (negative : Bool) (whole fraction : List Char) (e : Int) : Option Json :=
  let s := ((Scaled.mk 0 0).whole whole).fraction fraction
  (Scaled.mk s.significand (s.exponent + e)).toFloat?.map fun x =>
    float (if negative then x.negate else x)

/-- The value of digits without point and exponent. -/
def whole? (negative : Bool) (ds : List Char) : Option Json :=
  let n := Numeral.value ds
  if negative then
    if n ≠ 0 ∧ n ≤ Numeral.int64Limit then some (int (-n)) else float? true ds [] 0
  else if n < unsignedLimit then some (int n)
  else float? false ds [] 0

/-- An exponent behind its mark. -/
def exponent? (cs : List Char) : Option Int :=
  match cs with
  | [] => none
  | c :: ds => if c = 'e' ∨ c = 'E' then Numeral.integer? ds else none

/-- A number: an optional minus, digits without an idle zero in front, an optional point with
digits, and an optional exponent. -/
def number? (cs : List Char) : Option Json :=
  let (negative, body) := match cs with
    | '-' :: rest => (true, rest)
    | rest => (false, rest)
  let (ds, rest) := Numeral.spanDigits body
  if ds.isEmpty || (ds.head? == some '0' && 1 < ds.length) then none
  else match rest with
    | [] => whole? negative ds
    | '.' :: tail =>
      let (fs, tail) := Numeral.spanDigits tail
      if fs.isEmpty then none
      else if tail.isEmpty then float? negative ds fs 0
      else (exponent? tail).bind (float? negative ds fs)
    | tail => (exponent? tail).bind (float? negative ds [])

end EntityStore.Json
