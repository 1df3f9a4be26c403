/-! The proleptic Gregorian calendar, by days from 1970-01-01. -/
namespace EntityStore.Calendar

/-- Days from the start of year 0 to the start of a year. -/
def daysBeforeYear (y : Int) : Int := 365 * y + (y + 3) / 4 - (y + 99) / 100 + (y + 399) / 400

/-- Days from the start of year 0 to 1970-01-01. -/
def epoch : Int := 719528

def isLeap (y : Int) : Bool := y % 4 == 0 && (y % 100 != 0 || y % 400 == 0)

def monthLengths (y : Int) : List Nat :=
  [31, if isLeap y then 29 else 28, 31, 30, 31, 30, 31, 31, 30, 31, 30, 31]

/-- A date; months and days count from 1. -/
structure Date where
  year : Int
  month : Nat
  day : Nat
deriving DecidableEq

def Date.valid (d : Date) : Bool :=
  1 ≤ d.month && 1 ≤ d.day && d.day ≤ (monthLengths d.year).getD (d.month - 1) 0

/-- Days from the start of a year to the start of a month. -/
def daysBeforeMonth (y : Int) (m : Nat) : Nat := ((monthLengths y).take (m - 1)).foldl (· + ·) 0

def Date.toDays (d : Date) : Int :=
  daysBeforeYear d.year + daysBeforeMonth d.year d.month + (d.day - 1 : Nat) - epoch

/-- The year with the given day, counted from the start of year 0. -/
def yearOf (n : Int) : Int :=
  let y := n * 400 / 146097
  if n < daysBeforeYear y then y - 1
  else if daysBeforeYear (y + 1) ≤ n then y + 1
  else y

/-- The month, counted from `m`, and the day in it, of a day counted from the start of month `m`. -/
def monthDay (m : Nat) : List Nat → Nat → Nat × Nat
  | [], n => (m, n + 1)
  | len :: rest, n => if n < len then (m, n + 1) else monthDay (m + 1) rest (n - len)

/-- The date some days after 1970-01-01. -/
def Date.ofDays (days : Int) : Date :=
  let n := days + epoch
  let y := yearOf n
  let (m, d) := monthDay 1 (monthLengths y) (n - daysBeforeYear y).toNat
  ⟨y, m, d⟩

end EntityStore.Calendar
