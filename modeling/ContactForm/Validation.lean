import ContactForm.Config
import ContactForm.Record
import ContactForm.Review

namespace ContactForm

/-- A warning for each key that no row declares. -/
def warnUndeclared (table : List Row) (members : Members) (path : Locator) : Review Violation Unit :=
  .warn ((undeclared table members).map fun key => .unknownField (path.key key))

namespace Choice

def table : List Row := [
  .requires "label" .string,
  .requires "value" .string,
  .allows "selected" .boolean,
  .allows "disabled" .boolean]

/-- Checks a choice at `path`. -/
def check (path : Locator) (value : Json) : Review Violation Choice := do
  let members ← value.expectObject path
  let record ← Record.ofTable table members path
  warnUndeclared table members path
  return {
    label := ← record.string "label"
    value := ← record.string "value"
    selected := record.bool? "selected"
    disabled := record.bool? "disabled" }

end Choice

namespace Question

/-- The fields that every question has. -/
def table : List Row := [
  .requires "label" .text,
  .requires "name" .string,
  .requires "type" .string,
  .requires "required" .boolean]

/-- The choices of a question have to be an array only where its type calls for choices. -/
def choicesRow : Row := .allows "options" .array

def customRow : Row := .allows "custom" .object

def declared : List Row := table ++ [choicesRow, customRow]

/-- The choices of a selectbox question, of which it has at least one. -/
def checkChoices (record : Record) : Review Violation (List Choice) := do
  let path := record.path.key "options"
  choicesRow.check record.members record.path
  match record.array? "options" with
  | none => .fail ⟨path, .emptyOptions "absent"⟩
  | some [] => .fail ⟨path, .emptyOptions "empty array"⟩
  | some values => Review.each (fun i value => Choice.check (path.index i) value) values

/-- A question of any other type has no choices. -/
def forbidChoices (record : Record) (type : String) : Except Violation Unit :=
  if (record.present? "options").isSome then .error ⟨record.path.key "options", .unexpectedOptions type⟩
  else .ok ()

/-- The choices of a question of the given type. -/
def readChoices (record : Record) (type : String) : Review Violation (Option (List Choice)) :=
  if type = selectboxType then do return some (← checkChoices record)
  else do
    forbidChoices record type
    return none

/-- Checks a question at `path`; its choices are looked at before `custom`. -/
def check (path : Locator) (value : Json) : Review Violation Question := do
  let members ← value.expectObject path
  let record ← Record.ofTable table members path
  warnUndeclared declared members path
  let type ← record.string "type"
  let choices ← readChoices record type
  customRow.check members path
  return {
    label := ← record.text "label"
    name := ← record.string "name"
    type
    required := ← record.bool "required"
    choices
    custom := record.object? "custom" }

end Question

namespace Config

def table : List Row := [
  .requires "email" .string,
  .requires "title" .string,
  .requires "subject" .string,
  .requires "questions" .array,
  .allows "form_backend_url" .string,
  .allows "ignore_file_upload" .boolean,
  .allows "instructions" .text]

/-- A warning for each question whose name an earlier one has, with the first of them. -/
def repeatedNames (path : Locator) (questions : List Question) : List Warning :=
  let place (i : Nat) := (path.index i).key "name"
  let step (state : Std.TreeMap String Nat × List Warning) (entry : Question × Nat) :=
    let (firsts, warnings) := state
    let (question, i) := entry
    match firsts[question.name]? with
    | some first => (firsts, .duplicateName (place i) question.name (place first) :: warnings)
    | none => (firsts.insert question.name i, warnings)
  (questions.zipIdx.foldl step ({}, [])).2.reverse

/-- Checks a document: it is a configuration or breaks a rule, the first one in the order of the tables and of
    the questions. -/
def check (document : Json) : Review Violation Config := do
  let path := Locator.root
  let members ← document.expectObject path
  let record ← Record.ofTable table members path
  warnUndeclared table members path
  let path := path.key "questions"
  let questions ← Review.each (fun i value => Question.check (path.index i) value)
    ((record.array? "questions").getD [])
  Review.warn (repeatedNames path questions)
  return {
    email := ← record.string "email"
    title := ← record.string "title"
    subject := ← record.string "subject"
    questions
    backendUrl := record.string? "form_backend_url"
    ignoreFileUpload := record.bool? "ignore_file_upload"
    instructions := record.text? "instructions" }

/-- Whether a document is a valid configuration. -/
def isValid (document : Json) : Bool :=
  (check document).outcome.isOk

end Config

end ContactForm
