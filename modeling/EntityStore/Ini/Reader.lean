import EntityStore.Json.Basic
import EntityStore.Text.Blank
import EntityStore.Text.Hexadecimal
import EntityStore.Text.CodePoint

/-! INI texts read one character at a time: sections of keys, each with a text. -/
namespace EntityStore.Ini

/-- What a text is for: the name of a section, a key, or a part of a value, in quotes or up to the
end of its line. Parts of a value follow those that stand `before` them. -/
inductive Use
  | heading
  | key
  | quoted (mark : Char) (before : List Char)
  | plain (before : List Char) (first : Bool)

/-- Whether a character ends a text. -/
def Use.endsAt : Use → Char → Bool
  | .heading, c => c == ']'
  | .key, c => c == '=' || c == ':'
  | .quoted mark _, c => c == mark
  | .plain .., c => c == '\n' || c == '\r'

/-- The token being read; the characters of a text stand last first. A comment starts where a line
does. Of an escape in hex digits, `left` digits are still due after those that denote `code`. -/
inductive Token
  | none (lineStart : Bool)
  | comment
  | valueStart
  | afterQuote (before : List Char)
  | text (use : Use) (chars : List Char)
  | escape (use : Use) (chars : List Char)
  | hex (use : Use) (chars : List Char) (left code : Nat)

/-- A reader: the members so far, the section they are under, and the key whose value is due. -/
structure Reader where
  members : List (String × Json)
  heading : Option String
  key : String
  token : Token

namespace Reader

def start : Reader := ⟨[], none, "", .none true⟩

/-- Starts a section. An earlier one of the same name is dropped. -/
def startSection (r : Reader) (name : String) : Reader :=
  { r with members := Assoc.insert name (.obj []) r.members, heading := some name,
           token := .none false }

/-- Puts a value at the key. -/
def putValue (r : Reader) (value : List Char) (token : Token) : Reader :=
  let v := Json.str (String.ofList value)
  let members := match r.heading with
    | none => Assoc.insert r.key v r.members
    | some name =>
      let inner := match Assoc.find? name r.members with
        | some (.obj inner) => inner
        | _ => []
      Assoc.insert name (.obj (Assoc.insert r.key v inner)) r.members
  { r with members, key := "", token }

/-- A value with its last part, which stands without the blanks at its ends. After quotes only those
at the end of the line are left out. -/
def plainValue (before : List Char) (first : Bool) (chars : List Char) : List Char :=
  before ++ if first then Text.trim chars else Text.trimEnd chars

/-- Ends a text at the character `c`. -/
def endText (r : Reader) (use : Use) (chars : List Char) (c : Char) : Option Reader :=
  match use with
  | .heading => some (r.startSection (String.ofList (Text.trim chars)))
  | .key =>
    let key := Text.trim chars
    if key.isEmpty then none else some { r with key := String.ofList key, token := .valueStart }
  | .quoted _ before => some { r with token := .afterQuote (before ++ chars) }
  | .plain before first => some (r.putValue (plainValue before first chars) (.none (c == '\n')))

def stepText (r : Reader) (use : Use) (chars : List Char) (c : Char) : Option Reader :=
  if use.endsAt c then r.endText use chars.reverse c
  else if c = '\\' then some { r with token := .escape use chars }
  else some { r with token := .text use (c :: chars) }

def startPart (r : Reader) (before : List Char) (first : Bool) (c : Char) : Option Reader :=
  if c = '"' ∨ c = '\'' then some { r with token := .text (.quoted c before) [] }
  else r.stepText (.plain before first) [] c

def between (r : Reader) (lineStart : Bool) (c : Char) : Option Reader :=
  if Text.isBlank c then some { r with token := .none (c == '\n') }
  else if c = ';' ∨ c = '#' then
    if lineStart then some { r with token := .comment } else none
  else if c = '[' then some { r with token := .text .heading [] }
  else r.stepText .key [] c

/-- The characters that an escape of one letter stands for. A line break behind a backslash stands
for nothing, and any other character for itself. -/
def escaped (c : Char) : List Char :=
  match c with
  | '0' => ['\x00']
  | 'a' => ['\x07']
  | 'b' => ['\x08']
  | 't' => ['\t']
  | 'r' => ['\r']
  | 'n' => ['\n']
  | '\n' => []
  | c => [c]

def step (r : Reader) (c : Char) : Option Reader :=
  match r.token with
  | .none lineStart => r.between lineStart c
  | .comment => some (if c = '\n' then { r with token := .none true } else r)
  | .valueStart =>
    if Text.isBlank c ∧ c ≠ '\n' ∧ c ≠ '\r' then some r else r.startPart [] true c
  | .afterQuote before => r.startPart before false c
  | .text use chars => r.stepText use chars c
  | .escape use chars =>
    if c = 'x' then some { r with token := .hex use chars 4 0 }
    else some { r with token := .text use (escaped c ++ chars) }
  | .hex use chars left code =>
    (Text.hexDigit? c).bind fun d =>
      let code := 16 * code + d
      if left = 1 then
        (Text.charOf? code).map fun d => { r with token := .text use (d :: chars) }
      else some { r with token := .hex use chars (left - 1) code }

/-- The members at the end of the text. Only a value may end there. -/
def finish (r : Reader) : Option (List (String × Json)) :=
  match r.token with
  | .none _ | .comment => some r.members
  | .valueStart => some (r.putValue [] (.none false)).members
  | .afterQuote before => some (r.putValue before (.none false)).members
  | .text (.plain before first) chars =>
    some (r.putValue (plainValue before first chars.reverse) (.none false)).members
  | _ => none

end Reader

/-- The members of an INI text: an object for each section, and the keys before the first one. -/
def parse? (text : String) : Option (List (String × Json)) :=
  (text.toList.foldlM Reader.step Reader.start).bind Reader.finish

end EntityStore.Ini
