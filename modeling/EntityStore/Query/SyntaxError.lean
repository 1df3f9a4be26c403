/-! Why a text is no query. -/
namespace EntityStore

inductive ListClause
  | select
  | source
deriving DecidableEq, Repr

def ListClause.name : ListClause → String
  | .select => "SELECT"
  | .source => "FROM"

/-- Why a text is no query, with the piece of it that is at fault. The last cause is a cut of the
text that does not fall between two characters in order. -/
inductive SyntaxError
  | missingSelect (text : String)
  | missingFrom (text : String)
  | emptyList (list : ListClause) (text : String)
  | unknownOperator (fragment : String)
  | expectedAttribute (fragment : String)
  | expectedLiteral (fragment : String)
  | unterminatedString (fragment : String)
  | unbalancedParens (text : String)
  | unexpectedToken (fragment : String)
  | badCut (start stop : Nat)
deriving DecidableEq, Repr

def SyntaxError.message : SyntaxError → String
  | .missingSelect text => "Query must start with \"SELECT \": " ++ text
  | .missingFrom text => "Query must contain a \"FROM\" statement: " ++ text
  | .emptyList list text => "Empty " ++ list.name ++ " list in: " ++ text
  | .unknownOperator fragment => "Unrecognized operator in \"" ++ fragment ++ "\""
  | .expectedAttribute fragment => "Expected an attribute name at \"" ++ fragment ++ "\""
  | .expectedLiteral fragment => "Expected a literal value after \"" ++ fragment ++ "\""
  | .unterminatedString fragment => "Unterminated string literal at \"" ++ fragment ++ "\""
  | .unbalancedParens text => "Unbalanced parentheses in \"" ++ text ++ "\""
  | .unexpectedToken fragment => "Unexpected \"" ++ fragment ++ "\" in WHERE clause"
  | .badCut start stop => "No text from byte " ++ toString start ++ " to byte " ++ toString stop

end EntityStore
