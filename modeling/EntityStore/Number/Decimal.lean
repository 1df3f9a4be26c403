import EntityStore.Number.Binary64

/-! Shortest decimal texts of binary64 numbers. -/
namespace EntityStore.Decimal

def digits (n : Nat) : List Char := Nat.toDigits 10 n

def ofInt : Int → List Char
  | .ofNat n => digits n
  | .negSucc n => '-' :: digits (n + 1)

/-- The real numbers that round to one number, times `unit`: from `low` to `high`, with the ends
if `closed`, and the number itself at `value`. -/
structure Cell where
  low : Nat
  value : Nat
  high : Nat
  unit : Nat
  closed : Bool

/-- The cell of a finite number other than zero. Below the least number of a binade the numbers
stand twice as close. -/
def Cell.of (x : Binary64) : Cell :=
  let m := x.significand
  let edge := m = Binary64.binade ∧ -1074 < x.exponent
  let (scale, unit) := Binary64.scaleRatio 1 1 (x.exponent - 2)
  { low := (4 * m - if edge then 1 else 2) * scale
    value := 4 * m * scale
    high := (4 * m + 2) * scale
    unit := unit
    closed := m % 2 == 0 }

/-- Whether the decimal `c · num / den` lies in a cell. -/
def Cell.holds (cell : Cell) (c num den : Nat) : Bool :=
  let v := c * num * cell.unit
  if cell.closed then cell.low * den ≤ v && v ≤ cell.high * den
  else cell.low * den < v && v < cell.high * den

/-- The power of ten `10^k` as a quotient. -/
def powTen (k : Int) : Nat × Nat :=
  if 0 ≤ k then (Nat.pow 10 k.toNat, 1) else (1, Nat.pow 10 (-k).toNat)

/-- The greatest `p` with 10^p at most a positive quotient. -/
def log10Ratio (num den : Nat) : Int :=
  if den ≤ num then ((digits (num / den)).length : Int) - 1
  else -((digits ((den - 1) / num)).length : Int)

/-- Which of two decimals that are as near is taken: the one with the even last digit, or the
greater. -/
inductive Tie
  | even
  | greater
deriving DecidableEq, Repr

/-- The multiple of 10^k in a cell that is nearest to its value. -/
def Cell.nearest? (cell : Cell) (tie : Tie) (k : Int) : Option Nat :=
  let (num, den) := powTen k
  let c := cell.value * den / (cell.unit * num)
  let lower := cell.holds c num den
  let upper := cell.holds (c + 1) num den
  let r := cell.value * den % (cell.unit * num)
  if lower && upper then
    if 2 * r < cell.unit * num then some c
    else if cell.unit * num < 2 * r then some (c + 1)
    else match tie with
      | .even => some (c + c % 2)
      | .greater => some (c + 1)
  else if lower then some c
  else if upper then some (c + 1)
  else none

/-- The first of the grids 10^(p), 10^(p-1), … with a point in the cell, `n` grids at most. -/
def Cell.search (cell : Cell) (tie : Tie) : Nat → Int → Nat × Int
  | 0, k => (0, k)
  | n + 1, k =>
    match cell.nearest? tie k with
    | some c => if c = 0 then cell.search tie n (k - 1) else (c, k)
    | none => cell.search tie n (k - 1)

/-- A decimal with the digits `digits`, its point standing after the first `point` of them. -/
structure Shortest where
  digits : List Char
  point : Int

/-- The fewest digits that only this finite number is nearest to, and of those the nearest. -/
def shortest (tie : Tie) (x : Binary64) : Shortest :=
  let cell := Cell.of x
  let p := log10Ratio cell.value cell.unit
  let (c, k) := cell.search tie 18 p
  let ds := digits c
  ⟨(ds.reverse.dropWhile (· == '0')).reverse, ds.length + k⟩

def zeros (n : Nat) : List Char := List.replicate n '0'

/-- Digits around a point, `fraction` standing where there are none after it. -/
def Shortest.positional (fraction : List Char) (s : Shortest) : List Char :=
  if s.point ≤ 0 then '0' :: '.' :: (zeros (-s.point).toNat ++ s.digits)
  else
    let p := s.point.toNat
    if s.digits.length ≤ p then s.digits ++ zeros (p - s.digits.length) ++ fraction
    else s.digits.take p ++ '.' :: s.digits.drop p

/-- One digit before the point, and an exponent with its sign. -/
def Shortest.scientific (s : Shortest) : List Char :=
  let e := s.point - 1
  let mantissa := match s.digits with
    | [] => ['0']
    | [d] => [d]
    | d :: rest => d :: '.' :: rest
  mantissa ++ 'e' :: (if e < 0 then '-' else '+') :: Decimal.digits e.natAbs

def sign (x : Binary64) : List Char := if x.negative then ['-'] else []

/-- The text of a finite number as a numeral with a point or an exponent: positional from 10^-5
up to 10^16. A tie goes to the even digit. -/
def numeral (x : Binary64) : List Char :=
  if x.isZero then sign x ++ ['0', '.', '0']
  else
    let s := shortest .even x
    sign x ++ if -4 ≤ s.point ∧ s.point ≤ 16 then s.positional ['.', '0'] else s.scientific

/-- The plain text of a number, without exponent and without an idle point. A tie goes up. -/
def plain (x : Binary64) : List Char :=
  if x.isNaN then ['N', 'a', 'N']
  else if !x.isFinite then sign x ++ ['i', 'n', 'f']
  else if x.isZero then sign x ++ ['0']
  else sign x ++ (shortest .greater x).positional []

end EntityStore.Decimal
