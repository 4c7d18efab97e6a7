import ContactForm.Json.Value
import ContactForm.Locator

namespace ContactForm

/-- Which rule a document breaks. -/
inductive Violation.Cause where
  | missingField (expected : String)
  | typeMismatch (expected actual : String)
  | emptyOptions (actual : String)
  | unexpectedOptions (type : String)
deriving DecidableEq, Repr

/-- A broken rule and the place in the document where it is broken. -/
structure Violation where
  path : Locator
  cause : Violation.Cause
deriving DecidableEq, Repr

namespace Violation

def Cause.label : Cause → String
  | .missingField _ => "missing field"
  | .typeMismatch _ _ => "type mismatch"
  | .emptyOptions _ => "empty options"
  | .unexpectedOptions _ => "unexpected options"

def Cause.name : Cause → String
  | .missingField _ => "missing_field"
  | .typeMismatch _ _ => "type_mismatch"
  | .emptyOptions _ => "empty_options"
  | .unexpectedOptions _ => "unexpected_options"

def Cause.expected : Cause → String
  | .missingField expected => expected
  | .typeMismatch expected _ => expected
  | .emptyOptions _ => "non-empty array of options"
  | .unexpectedOptions _ => "no options outside selectbox questions"

def Cause.actual : Cause → String
  | .missingField _ => "absent"
  | .typeMismatch _ actual => actual
  | .emptyOptions actual => actual
  | .unexpectedOptions type => "options on a \"" ++ type ++ "\" question"

def message (v : Violation) : String :=
  s!"{v.path.render}: {v.cause.label}: expected {v.cause.expected}, got {v.cause.actual}"

def toJson (v : Violation) : Json :=
  .object [
    ("kind", .string v.cause.name),
    ("path", .string v.path.render),
    ("expected", .string v.cause.expected),
    ("actual", .string v.cause.actual)]

end Violation

end ContactForm
