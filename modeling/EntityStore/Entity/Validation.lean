import EntityStore.Schema.Kind

/-! Why values are refused, and options written in another letter case. -/
namespace EntityStore

/-- A text that is an option of an enumeration up to letter case only. -/
structure CaseDiagnostic where
  enumeration : Enumeration
  given : String
  canonical : String
deriving DecidableEq, Repr

def CaseDiagnostic.text (d : CaseDiagnostic) : String :=
  "\"" ++ d.given ++ "\" is not the same capitalization as " ++ d.enumeration.name
    ++ " option \"" ++ d.canonical ++ "\""

inductive ValidationError
  | invalidId (value : String) (idPrefix : Option String)
  | unknownAttribute (kind : Kind) (name : String)
  | missingAttribute (kind : Kind) (name : String)
  | typeMismatch (name : String) (expected : AttributeType) (found : String)
  | invalidOption (name : String) (enumeration : Enumeration) (value : String)
  | nonCanonicalCase (d : CaseDiagnostic)
  | reserved (name : String)
  | missingField (field : String)
deriving DecidableEq, Repr

def ValidationError.message : ValidationError → String
  | .invalidId value idPrefix =>
    "\"" ++ value ++ "\" is not a valid value for id. Must be a UUIDv4"
      ++ match idPrefix with
        | some p => " prefixed with \"" ++ p ++ "\""
        | none => ""
  | .unknownAttribute kind name => kind.name ++ " has no attribute named \"" ++ name ++ "\""
  | .missingAttribute kind name => kind.name ++ " requires attribute \"" ++ name ++ "\""
  | .typeMismatch name expected found =>
    found ++ " is not a valid type for " ++ name ++ ". Must be " ++ expected.describe
  | .invalidOption name enumeration value =>
    "\"" ++ value ++ "\" is not a valid value for " ++ name ++ " (" ++ enumeration.name
      ++ "). Options are " ++ ", ".intercalate enumeration.options
  | .nonCanonicalCase d =>
    "\"" ++ d.given ++ "\" does not match the capitalization of " ++ d.enumeration.name
      ++ " option \"" ++ d.canonical ++ "\""
  | .reserved name => "\"" ++ name ++ "\" is managed by the record and cannot be set"
  | .missingField field => "Record is missing the \"" ++ field ++ "\" field"

namespace Enumeration

/-- Checks a value of an attribute against the options. One that differs in letter case is accepted
with a diagnostic. -/
def check (e : Enumeration) (name value : String) :
    Except ValidationError (Option CaseDiagnostic) :=
  match e.canonical? value with
  | some c => .ok (if c = value then none else some ⟨e, value, c⟩)
  | none => .error (.invalidOption name e value)

/-- Checks each value of a list; the first that is no option refuses the list. -/
def checkAll (e : Enumeration) (name : String) :
    List String → Except ValidationError (List CaseDiagnostic)
  | [] => .ok []
  | v :: vs => do
    let d ← e.check name v
    let ds ← checkAll e name vs
    return d.toList ++ ds

end Enumeration

end EntityStore
