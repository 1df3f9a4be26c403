/-! Hexadecimal digits. -/
namespace EntityStore.Text

/-- The value of a hexadecimal digit of either case. -/
def hexDigit? (c : Char) : Option Nat :=
  if c.isDigit then some (c.toNat - '0'.toNat)
  else if 'a' ≤ c ∧ c ≤ 'f' then some (c.toNat - 'a'.toNat + 10)
  else if 'A' ≤ c ∧ c ≤ 'F' then some (c.toNat - 'A'.toNat + 10)
  else none

/-- The number that the next `n` digits denote, after digits that denote `value`, and the rest. -/
def hexFrom? : Nat → Nat → List Char → Option (Nat × List Char)
  | 0, value, cs => some (value, cs)
  | _ + 1, _, [] => none
  | n + 1, value, c :: cs => do
    let d ← hexDigit? c
    hexFrom? n (16 * value + d) cs

/-- The number that the next `n` digits denote, and the rest. -/
def fixedHex? (n : Nat) (cs : List Char) : Option (Nat × List Char) := hexFrom? n 0 cs

/-- The four digits of a number below 2^16, letters small. -/
def hexUnit (n : Nat) : List Char :=
  [n / 4096, n / 256, n / 16, n].map fun d => Nat.digitChar (d % 16)

end EntityStore.Text
