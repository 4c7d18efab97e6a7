import ContactForm.Json.Printer

namespace ContactForm

/-- One choice of a selectbox question. -/
structure Choice where
  label : String
  value : String
  selected : Option Bool
  disabled : Option Bool
deriving DecidableEq, Repr

/-- One field of the form; `custom` holds hints for its rendering that are passed on as they are. -/
structure Question where
  label : String
  name : String
  type : String
  required : Bool
  choices : Option (List Choice)
  custom : Option Members

/-- The whole contact form. -/
structure Config where
  email : String
  title : String
  subject : String
  questions : List Question
  backendUrl : Option String
  ignoreFileUpload : Option Bool
  instructions : Option String

/-- An optional value is written only where there is one. -/
def optionalMember (name : String) (value : Option Json) : Members :=
  value.toList.map (name, ·)

namespace Choice

/-- The value that `object` builds from the members of a choice in declaration order. -/
def encode (object : Members → Json) (c : Choice) : Json :=
  object <|
    [("label", .string c.label), ("value", .string c.value)] ++
    optionalMember "selected" (c.selected.map .bool) ++
    optionalMember "disabled" (c.disabled.map .bool)

def toJson (c : Choice) : Json :=
  c.encode Json.ofMembers

end Choice

namespace Question

def selectboxType : String := "selectbox"

def fileType : String := "file"

def isSelectbox (q : Question) : Bool := q.type == selectboxType

def isFile (q : Question) : Bool := q.type == fileType

def encode (object : Members → Json) (q : Question) : Json :=
  object <|
    [("label", .string q.label), ("name", .string q.name), ("type", .string q.type), ("required", .bool q.required)] ++
    optionalMember "options" (q.choices.map fun choices => .array (choices.map (Choice.encode object))) ++
    optionalMember "custom" (q.custom.map .object)

def toJson (q : Question) : Json :=
  q.encode Json.ofMembers

end Question

namespace Config

def encode (object : Members → Json) (c : Config) : Json :=
  object <|
    [("email", .string c.email), ("title", .string c.title), ("subject", .string c.subject),
      ("questions", .array (c.questions.map (Question.encode object)))] ++
    optionalMember "form_backend_url" (c.backendUrl.map .string) ++
    optionalMember "ignore_file_upload" (c.ignoreFileUpload.map .bool) ++
    optionalMember "instructions" (c.instructions.map .string)

/-- The configuration as a JSON value. -/
def toJson (c : Config) : Json :=
  c.encode Json.ofMembers

/-- The configuration as an indented text, with members in declaration order. -/
def pretty (c : Config) : String :=
  (c.encode Json.object).pretty

def same (c d : Config) : Bool :=
  c.toJson.same d.toJson

/-- The first question of a name. -/
def question? (c : Config) (name : String) : Option Question :=
  c.questions.find? (·.name == name)

def fileQuestions (c : Config) : List Question :=
  c.questions.filter Question.isFile

end Config

end ContactForm
