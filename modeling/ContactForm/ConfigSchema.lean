import ContactForm.Config
import ContactForm.Schema

namespace ContactForm

def describe (text : String) : Keyword :=
  .note "description" (.string text)

def stringSchema (description : String) : Schema :=
  [.type [.string], describe description]

/-- A string or an array of strings. -/
def textSchema (description : String) : Schema :=
  [.oneOf [[.type [.string]], [.type [.array], .items [.type [.string]]]], describe description]

/-- Null stands for a value that is left out. -/
def orNull (schema : Schema) : Schema :=
  [.oneOf [[.type [.null]], schema], .note "default" .null]

def Choice.schema : Schema := [
  .type [.object],
  .required ["label", "value"],
  .properties [
    ("label", stringSchema "Display text."),
    ("value", stringSchema "Value submitted with the form."),
    ("selected", [.type [.boolean, .null]]),
    ("disabled", [.type [.boolean, .null]])]]

/-- Choices belong to selectbox questions, which have at least one, and to no others. -/
def Question.choicesCondition : Keyword :=
  .conditional
    [.properties [("type", [.const Question.selectboxType])], .required ["type"]]
    [.required ["options"], .properties [("options", [.type [.array], .minItems 1])]]
    [.properties [("options", [.type [.null]])]]

def Question.schema : Schema := [
  .type [.object],
  .required ["label", "name", "type", "required"],
  .properties [
    ("label", textSchema "Display text; arrays are joined with one space."),
    ("name", stringSchema "HTML form field name."),
    ("type", stringSchema "Input kind (text, email, file, selectbox, ...)."),
    ("required", [.type [.boolean], describe "Whether the field must be filled before submission."]),
    ("options", [.type [.array, .null], .items Choice.schema]),
    ("custom", [.type [.object, .null], describe "Free-form rendering hints."])],
  choicesCondition]

/-- The JSON Schema of a configuration document. -/
def Config.schema : Schema := [
  .note "$schema" (.string "https://json-schema.org/draft/2020-12/schema"),
  .note "$id" (.string "contact-form://schemas/config.schema.json"),
  .note "title" (.string "Contact Form Configuration"),
  describe "Configuration document that drives the contact form website.",
  .type [.object],
  .required ["email", "title", "subject", "questions"],
  .properties [
    ("email", stringSchema "Recipient address for submissions."),
    ("title", stringSchema "Page title."),
    ("subject", stringSchema "Submission subject line."),
    ("questions", [.type [.array], .items Question.schema, describe "Questions in on-page order."]),
    ("form_backend_url", orNull (stringSchema "Submission endpoint.")),
    ("ignore_file_upload", [.type [.boolean, .null], describe "Leave file answers out of the submission."]),
    ("instructions", orNull (textSchema "Text shown above the form."))]]

end ContactForm
