import ContactForm.Json.Printer
import ContactForm.Locator

namespace ContactForm

/-- A finding that does not make a document invalid. -/
inductive Warning where
  | unknownField (path : Locator)
  | duplicateName (path : Locator) (name : String) (first : Locator)
deriving DecidableEq, Repr

namespace Warning

def kind : Warning → String
  | .unknownField _ => "unknown_field"
  | .duplicateName _ _ _ => "duplicate_question_name"

def path : Warning → Locator
  | .unknownField path => path
  | .duplicateName path _ _ => path

def message : Warning → String
  | .unknownField path => s!"unknown field {path.render} is ignored"
  | .duplicateName _ name first => s!"question name \"{name}\" already used at {first.render}"

def members (w : Warning) : Members :=
  [("kind", .string w.kind), ("path", .string w.path.render), ("message", .string w.message)]

def toJson (w : Warning) : Json :=
  .object w.members

/-- The line that reports a warning to whoever runs the program. -/
def line (w : Warning) : String :=
  (Json.object (("event", .string "config_warning") :: w.members)).compact ++ "\n"

end Warning

end ContactForm
