import ContactForm.Validation

namespace ContactForm

/-- The kinds of value that a shape admits. -/
def Shape.kinds : Shape → List Kind
  | .string => [.string]
  | .boolean => [.boolean]
  | .array => [.array]
  | .object => [.object]
  | .text => [.string, .array]

/-- What a value of the wrong kind breaks. -/
def Json.mismatch (path : Locator) (expected : String) (value : Json) : Violation :=
  ⟨path, .typeMismatch expected value.kind.name⟩

/-- The first of the lines that is no string. -/
def lineViolations (path : Locator) (lines : List Json) : List Violation :=
  ((lines.zipIdx.find? fun entry => entry.1.kind != .string).map fun entry =>
    entry.1.mismatch (path.index entry.2) "string").toList

def Shape.violations (path : Locator) : Shape → Json → List Violation
  | .text, .array lines => lineViolations path lines
  | shape, value => if value.kind ∈ shape.kinds then [] else [value.mismatch path shape.name]

/-- Null breaks a required field and no optional one. -/
def Row.violations (members : Members) (path : Locator) (row : Row) : List Violation :=
  match members.lookup row.name with
  | none => if row.required then [⟨path.key row.name, .missingField row.shape.name⟩] else []
  | some value =>
    if value.isNull && !row.required then [] else row.shape.violations (path.key row.name) value

/-- All violations of the rows of a table, in the order of the table. -/
def tableViolations (members : Members) (path : Locator) (table : List Row) : List Violation :=
  table.flatMap (Row.violations members path)

/-- A value that is no object breaks just that rule. -/
def Json.objectViolations (path : Locator) (within : Members → List Violation) :
    Json → List Violation
  | .object members => within members
  | value => [value.mismatch path "object"]

/-- All violations of the elements of a list, in their order. -/
def listViolations (path : Locator) (within : Locator → Json → List Violation)
    (values : List Json) : List Violation :=
  values.zipIdx.flatMap fun entry => within (path.index entry.2) entry.1

def Choice.violations (path : Locator) : Json → List Violation :=
  Json.objectViolations path fun members => tableViolations members path Choice.table

namespace Question

/-- A selectbox question has an array of choices that is not empty. -/
def choicesViolations (path : Locator) : Option Json → List Violation
  | none => [⟨path, .emptyOptions "absent"⟩]
  | some .null => [⟨path, .emptyOptions "absent"⟩]
  | some (.array []) => [⟨path, .emptyOptions "empty array"⟩]
  | some (.array values) => listViolations path Choice.violations values
  | some value => [value.mismatch path "array"]

/-- Any other question has no choices. -/
def noChoicesViolations (path : Locator) (type : String) : Option Json → List Violation
  | none => []
  | some .null => []
  | some _ => [⟨path, .unexpectedOptions type⟩]

/-- The rule about choices, which is put off until the type of the question is a string. -/
def choicesRuleViolations (members : Members) (path : Locator) : List Violation :=
  let path := path.key "options"
  match members.lookup "type" with
  | some (.string type) =>
    if type = "selectbox" then choicesViolations path (members.lookup "options")
    else noChoicesViolations path type (members.lookup "options")
  | _ => []

def violations (path : Locator) : Json → List Violation :=
  Json.objectViolations path fun members =>
    tableViolations members path Question.table ++ choicesRuleViolations members path ++
      Row.violations members path Question.customRow

end Question

/-- All violations of the questions of a document, where there is an array of them. -/
def Config.questionsViolations (members : Members) : List Violation :=
  match members.lookup "questions" with
  | some (.array values) => listViolations (Locator.root.key "questions") Question.violations values
  | _ => []

/-- All violations of a document in the order in which its parts are looked at: the fields of the document first,
    then the questions one by one. -/
def Config.violations : Json → List Violation :=
  Json.objectViolations .root fun members =>
    tableViolations members .root Config.table ++ questionsViolations members

end ContactForm
