/-! Binary64 numbers: their values, comparison and rounding to nearest. -/
namespace EntityStore

/-- A binary64 number: its sign, and where its magnitude stands among the 2^63 magnitudes in order.
Zero is first, infinity stands at `infinityRank`, and all that follow are NaN. -/
structure Binary64 where
  negative : Bool
  rank : Fin 9223372036854775808
deriving DecidableEq

namespace Binary64

/-- The count of magnitudes with one exponent, 2^52. -/
def binade : Nat := 4503599627370496

/-- The place of infinity. -/
def infinityRank : Nat := 2047 * binade

/-- The number of a sign at a place, infinity beyond the last. -/
def ofRank (negative : Bool) (rank : Nat) : Binary64 :=
  ⟨negative, ⟨min rank infinityRank, by
    have : infinityRank < 9223372036854775808 := by decide
    omega⟩⟩

def zero (negative : Bool) : Binary64 := ofRank negative 0

def infinity (negative : Bool) : Binary64 := ofRank negative infinityRank

def nan : Binary64 := ⟨false, ⟨infinityRank + binade / 2, by decide⟩⟩

instance : Inhabited Binary64 := ⟨zero false⟩

def isFinite (x : Binary64) : Bool := x.rank.val < infinityRank

def isNaN (x : Binary64) : Bool := infinityRank < x.rank.val

def isZero (x : Binary64) : Bool := x.rank.val == 0

def negate (x : Binary64) : Binary64 := { x with negative := !x.negative }

/-- The whole number `m` in the magnitude m · 2^q of a finite number. -/
def significand (x : Binary64) : Nat :=
  if x.rank.val < binade then x.rank.val else binade + x.rank.val % binade

/-- The exponent `q` in the magnitude m · 2^q of a finite number. -/
def exponent (x : Binary64) : Int :=
  if x.rank.val < binade then -1074 else (x.rank.val / binade : Nat) - 1075

/-- A quotient of whole numbers times a power of two, as a quotient. -/
def scaleRatio (num den : Nat) (q : Int) : Nat × Nat :=
  if 0 ≤ q then (num * Nat.pow 2 q.toNat, den) else (num, den * Nat.pow 2 (-q).toNat)

/-- The magnitude of a finite number as a quotient of whole numbers. -/
def ratio (x : Binary64) : Nat × Nat := scaleRatio x.significand 1 x.exponent

/-- The whole number nearest to a quotient; a half goes to the even neighbour. -/
def roundHalfEven (num den : Nat) : Nat :=
  let k := num / den
  let r := num % den
  if 2 * r < den then k else if den < 2 * r then k + 1 else k + k % 2

/-- The greatest `e` with 2^e at most a positive quotient. -/
def log2Ratio (num den : Nat) : Int :=
  let e : Int := (num.log2 : Int) - (den.log2 : Int)
  let (n, d) := scaleRatio num den (-e)
  if d ≤ n then e else e - 1

/-- The binary64 number nearest to a quotient with the given sign; of two as near the one with the
even significand, and infinity from half a step beyond the greatest finite number. -/
def ofRatio (negative : Bool) (num den : Nat) : Binary64 :=
  if num = 0 then zero negative
  else
    let q := max (log2Ratio num den - 52) (-1074)
    let (n, d) := scaleRatio num den (-q)
    ofRank negative ((q + 1074).toNat * binade + roundHalfEven n d)

/-- The binary64 number nearest to a whole number. -/
def ofInt (n : Int) : Binary64 := ofRatio (n < 0) n.natAbs 1

/-- The nearest number to the product of two finite numbers. -/
def mul (x y : Binary64) : Binary64 :=
  let (a, b) := x.ratio
  let (c, d) := y.ratio
  ofRatio (x.negative != y.negative) (a * c) (b * d)

/-- The nearest number to the quotient of two finite numbers, the second not zero. -/
def div (x y : Binary64) : Binary64 :=
  let (a, b) := x.ratio
  let (c, d) := y.ratio
  ofRatio (x.negative != y.negative) (a * d) (b * c)

/-- The place of a number in order of value, zero for both zeros. -/
def place (x : Binary64) : Int := if x.negative then -(x.rank.val : Int) else x.rank.val

/-- Order by value: both zeros are equal, and NaN is not comparable. -/
def compare? (x y : Binary64) : Option Ordering :=
  if x.isNaN || y.isNaN then none else some (compare x.place y.place)

def sameValue (x y : Binary64) : Bool := compare? x y == some .eq

end Binary64

end EntityStore
