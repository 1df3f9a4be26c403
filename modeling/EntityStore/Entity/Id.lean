import EntityStore.Entity.Validation

/-! Ids: UUIDs of version 4, behind a text that the kind asks for. -/
namespace EntityStore.Id

def isHexDigit (c : Char) : Bool := c.isDigit || ('a' ≤ c && c ≤ 'f') || ('A' ≤ c && c ≤ 'F')

/-- Whether a character may stand at a place of a UUID: hyphens part it into groups of 8, 4, 4, 4
and 12 hexadecimal digits, and the third group starts with the version. -/
def fits (place : Nat) (c : Char) : Bool :=
  if place = 8 ∨ place = 13 ∨ place = 18 ∨ place = 23 then c == '-'
  else if place = 14 then c == '4'
  else isHexDigit c

/-- Whether each character from a place on fits there. -/
def fitsFrom (place : Nat) : List Char → Bool
  | [] => true
  | c :: cs => fits place c && fitsFrom (place + 1) cs

/-- Whether a text is a hyphenated UUID of version 4. -/
def isUuid4 (cs : List Char) : Bool := cs.length == 36 && fitsFrom 0 cs

/-- What follows a text at the start of another. -/
def strip? : List Char → List Char → Option (List Char)
  | [], cs => some cs
  | _ :: _, [] => none
  | p :: ps, c :: cs => if p = c then strip? ps cs else none

def valid (kind : Kind) (id : String) : Bool :=
  match strip? ((kind.idPrefix?).getD "").toList id.toList with
  | some uuid => isUuid4 uuid
  | none => false

/-- Refuses a text that is no id of a kind. -/
def validate (kind : Kind) (id : String) : Except ValidationError Unit :=
  if valid kind id then .ok () else .error (.invalidId id kind.idPrefix?)

def ofUuid (kind : Kind) (uuid : String) : String := (kind.idPrefix?).getD "" ++ uuid

end EntityStore.Id
