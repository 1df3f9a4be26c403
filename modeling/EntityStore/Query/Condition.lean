import EntityStore.Query.Basic
import EntityStore.Query.Token
import EntityStore.Text.Case

/-! Conditions read from tokens. AND and OR are of one rank and fold from left to right; only
parentheses regroup. -/
namespace EntityStore

/-- The connective that a token is: an unquoted AND or OR in any letter case. -/
def Token.connective? : Token → Option Connective
  | .word cs =>
    let w := cs.map Char.toLower
    if w = "and".toList then some .and else if w = "or".toList then some .or else none
  | _ => none

/-- The name that a token is: a word other than a connective. -/
def Token.name? : Token → Option String
  | .word cs => if (Token.word cs).connective?.isSome then none else some (String.ofList cs)
  | _ => none

def Token.operator? : Token → Option Operator
  | .op cs => Operator.ofSymbol? (String.ofList cs)
  | _ => none

def Token.literal? : Token → Option Literal
  | .quoted cs => some (.quoted (String.ofList cs))
  | t => t.name?.map .bare

namespace Condition

/-- The trimmed text of the clause that starts with the first token: it ends before the next
connective. Without tokens, all of the text. -/
def fragment (text : List Char) : List Token.At → Except SyntaxError String
  | [] => .ok (String.ofList (Text.trim text))
  | first :: rest => do
    let stop := ((rest.find? fun t => t.token.connective?.isSome).map (·.start)).getD
      (Text.byteSize text)
    let piece ← cut text first.start stop
    return String.ofList (Text.trim piece)

/-- A cause that tells the clause at the first token. -/
def fault {α : Type} (text : List Char) (tokens : List Token.At) (cause : String → SyntaxError) :
    Except SyntaxError α := do
  let piece ← fragment text tokens
  throw (cause piece)

def unbalanced {α : Type} (text : List Char) : Except SyntaxError α :=
  .error (.unbalancedParens (String.ofList (Text.trim text)))

/-- Why no clause stands at the first token. -/
def clauseFault {α : Type} (text : List Char) (tokens : List Token.At) : Except SyntaxError α :=
  match tokens with
  | [] => fault text tokens .expectedAttribute
  | a :: rest =>
    if a.token = .rightParen then unbalanced text
    else if a.token.name?.isNone then fault text tokens .expectedAttribute
    else match rest with
      | [] => fault text tokens .unknownOperator
      | o :: _ =>
        if o.token.operator?.isNone then fault text tokens .unknownOperator
        else fault text tokens .expectedLiteral

/-- The left operand that waits for its right one, if there is one. -/
abbrev Waiting := Option (Predicate × Connective)

def Waiting.join : Waiting → Predicate → Predicate
  | none, p => p
  | some (left, op), p => .join op left p

mutual

/-- Reads an operand and what follows. `outer` holds what waits before each open parenthesis, the
innermost first. -/
def operand (text : List Char) (outer : List Waiting) (left : Waiting) :
    List Token.At → Except SyntaxError Predicate
  | [] => clauseFault text []
  | t :: rest =>
    if t.token = .leftParen then operand text (left :: outer) none rest
    else match rest with
      | o :: l :: rest' =>
        match t.token.name?, o.token.operator?, l.token.literal? with
        | some subject, some op, some literal =>
          continued text outer (left.join (.clause ⟨subject, op, literal⟩)) rest'
        | _, _, _ => clauseFault text (t :: o :: l :: rest')
      | _ => clauseFault text (t :: rest)

/-- Reads on after an operand. -/
def continued (text : List Char) (outer : List Waiting) (p : Predicate) :
    List Token.At → Except SyntaxError Predicate
  | [] => if outer.isEmpty then .ok p else unbalanced text
  | t :: rest =>
    match t.token.connective? with
    | some op => operand text outer (some (p, op)) rest
    | none =>
      match outer with
      | left :: outer' =>
        if t.token = .rightParen then continued text outer' (left.join p) rest
        else unbalanced text
      | [] =>
        if t.token = .rightParen then unbalanced text
        else fault text (t :: rest) .unexpectedToken

end

/-- Reads a condition. -/
def parse (text : List Char) : Except SyntaxError Predicate := do
  let tokens ← tokenize text
  operand text [] none tokens

end Condition

def Predicate.parse (text : String) : Except SyntaxError Predicate := Condition.parse text.toList

end EntityStore
