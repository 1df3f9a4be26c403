/-! Queries: a projection, the kinds it scans and a condition. -/
namespace EntityStore

inductive Operator
  | eq
  | ne
  | lt
  | gt
  | le
  | ge
deriving DecidableEq, Repr

namespace Operator

def all : List Operator := [.eq, .ne, .lt, .gt, .le, .ge]

def symbol : Operator → String
  | .eq => "="
  | .ne => "<>"
  | .lt => "<"
  | .gt => ">"
  | .le => "<="
  | .ge => ">="

def ofSymbol? (s : String) : Option Operator := all.find? fun o => o.symbol == s

/-- Whether an order of the stored value relative to the literal satisfies the operator. -/
def accepts : Operator → Ordering → Bool
  | .eq, o => o == .eq
  | .ne, o => o != .eq
  | .lt, o => o == .lt
  | .gt, o => o == .gt
  | .le, o => o != .gt
  | .ge, o => o != .lt

end Operator

/-- The right side of a clause: a text in quotes, or a bare word. -/
inductive Literal
  | quoted (text : String)
  | bare (text : String)
deriving DecidableEq, Repr

def Literal.text : Literal → String
  | .quoted s => s
  | .bare s => s

structure Clause where
  subject : String
  op : Operator
  literal : Literal
deriving DecidableEq, Repr

inductive Connective
  | and
  | or
deriving DecidableEq, Repr

inductive Predicate
  | clause (c : Clause)
  | join (op : Connective) (left right : Predicate)
deriving DecidableEq, Repr

/-- The columns of the result: of all, the id, the declared attributes of the kinds in scope and the
kind. -/
inductive Selection
  | all
  | names (names : List String)
deriving DecidableEq, Repr

/-- The kinds to scan, by name; of all, those with a namespace. -/
inductive Source
  | all
  | names (names : List String)
deriving DecidableEq, Repr

structure Query where
  select : Selection
  source : Source
  condition : Option Predicate
deriving DecidableEq, Repr

end EntityStore
