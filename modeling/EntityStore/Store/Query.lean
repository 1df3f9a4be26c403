import EntityStore.Query.Eval
import EntityStore.Query.Parser
import EntityStore.Query.Result
import EntityStore.Store.Lookup

/-! Queries over the records of a store. -/
namespace EntityStore.Store

/-- The kinds of names, each once. -/
def resolveNames (known : List Kind) : List String → Except Refusal (List Kind)
  | [] => .ok known
  | name :: names => do
    let k ← Kind.resolve name
    resolveNames (if known.contains k then known else known ++ [k]) names

/-- The kinds that a query scans. -/
def resolveSource (s : Store) (t : Tree) : Source → Except Refusal (List Kind)
  | .all => .ok (s.namespaces t)
  | .names names => resolveNames [] names

/-- Adds the names that are not there yet. -/
def addNames (known names : List String) : List String :=
  names.foldl (fun acc n => if acc.contains n then acc else acc ++ [n]) known

/-- The headers of a projection of all: the id, the declared attributes and the kind. -/
def allHeaders (kinds : List Kind) : List String :=
  kinds.foldl (fun acc k => addNames acc (k.attributes.map (·.name))) [idField] ++ [kindField]

def headers (kinds : List Kind) : Selection → List String
  | .all => allHeaders kinds
  | .names names => names

/-- The field of an entity under a header. -/
def field? (e : Entity) (header : String) : Option Json :=
  if header = idField then some (.str e.id)
  else if header = kindField then some (.str e.kind.name)
  else (e.get? header).map Value.toJson

/-- Whether an entity satisfies a condition, if there is one. -/
def meets (condition : Option Predicate) (e : Entity) : Bool :=
  match condition with
  | some p => p.holds e
  | none => true

/-- The entities of some kinds, kind after kind. -/
def scan (s : Store) (t : Tree) (kinds : List Kind) : Except Error (List Entity) :=
  (kinds.mapM (s.list t)).map List.flatten

/-- The rows of the entities that satisfy a query's condition. -/
def execute (s : Store) (t : Tree) (q : EntityStore.Query) : Except Error Table := do
  let kinds ← (s.resolveSource t q.source).mapError .refused
  let headers := headers kinds q.select
  let entities ← s.scan t kinds
  return ⟨headers, (entities.filter (meets q.condition)).map fun e => headers.map (field? e)⟩

def query (s : Store) (t : Tree) (text : String) : Except Error Table := do
  let q ← (Query.parse text).mapError .querySyntax
  s.execute t q

end EntityStore.Store
