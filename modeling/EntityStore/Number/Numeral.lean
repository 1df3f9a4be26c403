import EntityStore.Number.Decimal

/-! Decimal numerals read as 64-bit integers and as binary64 numbers. -/
namespace EntityStore.Numeral

/-- The digits at the start of a text, and the rest. -/
def spanDigits (cs : List Char) : List Char × List Char :=
  (cs.takeWhile Char.isDigit, cs.dropWhile Char.isDigit)

/-- The whole number that a list of digits denotes, after digits that denote `n`. -/
def valueFrom (n : Nat) : List Char → Nat
  | [] => n
  | c :: cs => valueFrom (10 * n + (c.toNat - '0'.toNat)) cs

def value (ds : List Char) : Nat := valueFrom 0 ds

/-- A leading sign, true for minus, and the rest. -/
def splitSign : List Char → Bool × List Char
  | '-' :: cs => (true, cs)
  | '+' :: cs => (false, cs)
  | cs => (false, cs)

/-- An optional sign and digits, as an integer of any size. -/
def integer? (cs : List Char) : Option Int :=
  let (negative, ds) := splitSign cs
  if ds.isEmpty || !ds.all Char.isDigit then none
  else some (if negative then -(value ds : Int) else value ds)

/-- The count of 64-bit integers of either sign, 2^63. -/
def int64Limit : Nat := 9223372036854775808

/-- The 64-bit integer with a value, if there is one. -/
def int64? (n : Int) : Option Int64 :=
  if -int64Limit ≤ n ∧ n < int64Limit then some (Int64.ofInt n) else none

/-- The binary64 number nearest to `c · 10^e` with the given sign. -/
def ofScientific (negative : Bool) (c : Nat) (e : Int) : Binary64 :=
  let point := ((Decimal.digits c).length : Int) + e
  if c = 0 ∨ point < -330 then .zero negative
  else if 310 < point then .infinity negative
  else
    let (n, d) := Decimal.powTen e
    .ofRatio negative (c * n) d

/-- An exponent with its mark, or nothing. -/
def exponent? : List Char → Option Int
  | [] => some 0
  | c :: cs => if c = 'e' ∨ c = 'E' then integer? cs else none

/-- The binary64 number nearest to a numeral: digits with an optional point among or beside them and
an optional exponent, or a word for infinity or NaN in any letter case. -/
def binary64? (cs : List Char) : Option Binary64 :=
  let (negative, body) := splitSign cs
  let word := body.map Char.toLower
  if word = "inf".toList ∨ word = "infinity".toList then some (.infinity negative)
  else if word = "nan".toList then some .nan
  else
    let (whole, rest) := spanDigits body
    let (fraction, rest) := match rest with
      | '.' :: cs => spanDigits cs
      | cs => ([], cs)
    if whole.isEmpty && fraction.isEmpty then none
    else (exponent? rest).map fun e =>
      ofScientific negative (value (whole ++ fraction)) (e - fraction.length)

end EntityStore.Numeral
