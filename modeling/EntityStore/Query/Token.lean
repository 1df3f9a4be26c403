import EntityStore.Query.SyntaxError
import EntityStore.Text.Alphanumeric
import EntityStore.Text.Blank
import EntityStore.Text.Slice

/-! The tokens of conditions, read one character at a time. -/
namespace EntityStore

/-- A token; a quoted one holds the text between the quotes, doubled quotes taken as one. -/
inductive Token
  | leftParen
  | rightParen
  | word (text : List Char)
  | quoted (text : List Char)
  | op (text : List Char)
deriving DecidableEq, Repr

/-- A token and the byte at which it starts. -/
structure Token.At where
  token : Token
  start : Nat
deriving DecidableEq, Repr

namespace Lexer

def isWordChar (c : Char) : Bool :=
  Text.isAlphanumeric c || c == '_' || c == '-' || c == '.' || c == ':' || c == '+'

def isOpChar (c : Char) : Bool := c == '=' || c == '<' || c == '>' || c == '!'

def isQuote (c : Char) : Bool := c == '\'' || c == '"'

/-- The token being read, its characters last first. After a quote in a quoted token, a second one
makes it a character. -/
inductive Pending
  | none
  | word (chars : List Char)
  | op (chars : List Char)
  | quoted (quote : Char) (chars : List Char)
  | quoteSeen (quote : Char) (chars : List Char)
deriving DecidableEq, Repr

/-- The tokens so far, last first, and the token being read with its start. -/
structure State where
  done : List Token.At
  pending : Pending
  start : Nat
deriving DecidableEq, Repr

def State.initial : State := ⟨[], .none, 0⟩

/-- Ends the token being read; a quoted one ends at its quote only. -/
def State.flush (s : State) : List Token.At :=
  match s.pending with
  | .none | .quoted .. => s.done
  | .word chars => ⟨.word chars.reverse, s.start⟩ :: s.done
  | .op chars => ⟨.op chars.reverse, s.start⟩ :: s.done
  | .quoteSeen _ chars => ⟨.quoted chars.reverse, s.start⟩ :: s.done

def begin (done : List Token.At) (place : Nat) (c : Char) : Except SyntaxError State :=
  if Text.isBlank c then .ok ⟨done, .none, place⟩
  else if c = '(' then .ok ⟨⟨.leftParen, place⟩ :: done, .none, place⟩
  else if c = ')' then .ok ⟨⟨.rightParen, place⟩ :: done, .none, place⟩
  else if isQuote c then .ok ⟨done, .quoted c [], place⟩
  else if isOpChar c then .ok ⟨done, .op [c], place⟩
  else if isWordChar c then .ok ⟨done, .word [c], place⟩
  else .error (.unexpectedToken (String.singleton c))

def step (s : State) (place : Nat) (c : Char) : Except SyntaxError State :=
  match s.pending with
  | .none => begin s.flush place c
  | .word chars =>
    if isWordChar c then .ok { s with pending := .word (c :: chars) } else begin s.flush place c
  | .op chars =>
    if isOpChar c then .ok { s with pending := .op (c :: chars) } else begin s.flush place c
  | .quoted quote chars =>
    if c = quote then .ok { s with pending := .quoteSeen quote chars }
    else .ok { s with pending := .quoted quote (c :: chars) }
  | .quoteSeen quote chars =>
    if c = quote then .ok { s with pending := .quoted quote (c :: chars) }
    else begin s.flush place c

def run (s : State) (place : Nat) : List Char → Except SyntaxError State
  | [] => .ok s
  | c :: cs => do
    let s ← step s place c
    run s (place + c.utf8Size) cs

theorem run_append (s : State) (place : Nat) (xs ys : List Char) :
    run s place (xs ++ ys) =
      (run s place xs).bind fun t => run t (place + Text.byteSize xs) ys := by
  induction xs generalizing s place with
  | nil => rfl
  | cons c cs ih =>
    simp only [List.cons_append, run, Text.byteSize]
    cases h : step s place c with
    | error e => rfl
    | ok t => simpa [bind, Except.bind, Nat.add_assoc] using ih t (place + c.utf8Size)

end Lexer

/-- The piece of a text between two bytes. -/
def cut (text : List Char) (start stop : Nat) : Except SyntaxError (List Char) :=
  match Text.slice? start stop text with
  | some piece => .ok piece
  | none => .error (.badCut start stop)

def tokenize (text : List Char) : Except SyntaxError (List Token.At) := do
  let s ← Lexer.run .initial 0 text
  match s.pending with
  | .quoted .. => do
    let rest ← cut text s.start (Text.byteSize text)
    throw (.unterminatedString (String.ofList rest))
  | _ => return s.flush.reverse

end EntityStore
