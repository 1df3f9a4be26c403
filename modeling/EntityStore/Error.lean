import EntityStore.Entity.Validation
import EntityStore.Files.Tree
import EntityStore.Query.SyntaxError
import EntityStore.Schema.Suggestion

/-! Errors of the store and its records. -/
namespace EntityStore

inductive Refusal
  | invalid (cause : ValidationError)
  | unknownKind (name : String) (suggestion : Option Kind)
deriving DecidableEq, Repr

def Refusal.message : Refusal → String
  | .invalid cause => "Validation error: " ++ cause.message
  | .unknownKind name suggestion =>
    "\"" ++ name ++ "\" is not a known kind"
      ++ match suggestion with
        | some k => " (did you mean \"" ++ k.name ++ "\"?)"
        | none => ""

/-- The kind of a discriminator; of any other name the refusal tells the nearest kind. -/
def Kind.resolve (name : String) : Except Refusal Kind :=
  match Kind.ofName? name with
  | some k => .ok k
  | none => .error (.unknownKind name (Suggestion.nearest? name))

inductive Defect
  | notAnObject
  | refused (cause : Refusal)
  | misplaced (id : String) (kind : Kind)
deriving DecidableEq, Repr

def Defect.message : Defect → String
  | .notAnObject => "not the text of a JSON object"
  | .refused cause => cause.message
  | .misplaced id kind =>
    "record " ++ id ++ " of kind " ++ kind.name ++ " is stored in the wrong place"

inductive Error
  | refused (cause : Refusal)
  | querySyntax (cause : SyntaxError)
  | conflict (kind : Kind) (id : String)
  | notFound (ids : List String)
  | corrupt (path : String) (defect : Defect)
  | io (cause : IoError)
deriving DecidableEq, Repr

namespace Error

def message : Error → String
  | refused cause => cause.message
  | querySyntax cause => "Query syntax error: " ++ cause.message
  | conflict kind id =>
    "Object " ++ id ++ " already exists in " ++ kind.name ++ ". Save with overwrite to replace it"
  | notFound ids => "No record found for id(s): " ++ ", ".intercalate ids
  | corrupt path defect => "Corrupt record at " ++ Path.quoted path ++ ": " ++ defect.message
  | io cause => "IO error: " ++ cause.message

/-- The message and those of the causes behind it. -/
def chain (e : Error) : List String :=
  e.message :: match e with
    | refused (.invalid cause) => [cause.message]
    | querySyntax cause => [cause.message]
    | io cause => [cause.message]
    | _ => []

/-- Whether the caller's input is the cause, and not the environment. -/
def isUserError : Error → Bool
  | refused _ | querySyntax _ | conflict .. | notFound _ => true
  | corrupt .. | io _ => false

end Error

end EntityStore
