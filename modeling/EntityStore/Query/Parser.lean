import EntityStore.Query.Condition
import EntityStore.Text.Split

/-! Queries read from text: `SELECT` names `FROM` kinds, and `WHERE` a condition if there is one.
Keywords stand in any letter case between ASCII white space. -/
namespace EntityStore.Query

/-- What follows a keyword at the start of a text, in any letter case. -/
def afterKeyword? : List Char → List Char → Option (List Char)
  | [], cs => some cs
  | _ :: _, [] => none
  | k :: ks, c :: cs => if k.toLower = c.toLower then afterKeyword? ks cs else none

/-- Whether a text starts with a keyword that ends there or before ASCII white space. -/
def startsWith (keyword text : List Char) : Bool :=
  match afterKeyword? keyword text with
  | some [] => true
  | some (c :: _) => Text.isAsciiBlank c
  | none => false

/-- The byte of the first keyword that ASCII white space precedes. `place` is the byte at which the
text starts, and `border` tells whether white space stands before it. -/
def findKeyword? (keyword : List Char) (place : Nat) (border : Bool) : List Char → Option Nat
  | [] => none
  | c :: cs =>
    if border && startsWith keyword (c :: cs) then some place
    else findKeyword? keyword (place + c.utf8Size) (Text.isAsciiBlank c) cs

/-- The trimmed texts before and after the first keyword, if there is one. -/
def splitAt (keyword text : List Char) : Except SyntaxError (Option (List Char × List Char)) :=
  match findKeyword? keyword 0 false text with
  | none => .ok none
  | some place => do
    let before ← cut text 0 place
    let after ← cut text (place + Text.byteSize keyword) (Text.byteSize text)
    return some (Text.trimEnd before, Text.trimStart after)

/-- The names of a list, none of them empty. -/
def names (list : ListClause) (query text : List Char) : Except SyntaxError (List String) :=
  let items := (Text.split ',' text).map Text.trim
  if items.any List.isEmpty then .error (.emptyList list (String.ofList query))
  else .ok (items.map String.ofList)

/-- A query without the white space around it and the semicolons at its end. -/
def body (text : List Char) : List Char :=
  Text.trimEnd (Text.trimEndBy (· == ';') (Text.trim text))

/-- The text after `SELECT` and the white space behind it. -/
def afterSelect (text : List Char) : Except SyntaxError (List Char) :=
  match afterKeyword? "SELECT".toList text with
  | some (c :: _) =>
    if Text.isAsciiBlank c then do
      let rest ← cut text 6 (Text.byteSize text)
      return Text.trimStart rest
    else .error (.missingSelect (String.ofList text))
  | _ => .error (.missingSelect (String.ofList text))

/-- The condition after `WHERE`; there must be one. -/
def statedCondition (query text : List Char) : Except SyntaxError Predicate :=
  if text.isEmpty then .error (.expectedAttribute (String.ofList query)) else Condition.parse text

def parse (text : String) : Except SyntaxError Query := do
  let query := body text.toList
  let rest ← afterSelect query
  match ← splitAt "FROM".toList rest with
  | none => throw (.missingFrom (String.ofList query))
  | some (selectText, rest) =>
    let clauses ← splitAt "WHERE".toList rest
    let sourceText := (clauses.map (·.1)).getD rest
    let select ← names .select query selectText
    let source ← names .source query sourceText
    let condition ← match clauses with
      | some (_, text) => (statedCondition query text).map some
      | none => pure none
    return {
      select := if select = ["*"] then .all else .names select
      source := if source = ["*"] then .all else .names source
      condition }

end EntityStore.Query
