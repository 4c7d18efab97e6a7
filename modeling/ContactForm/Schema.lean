import ContactForm.Json.Value

namespace ContactForm

/-- A keyword of a JSON Schema. Its sub-schemas are lists of keywords. -/
inductive Keyword where
  | type (kinds : List Kind)
  | required (keys : List String)
  | properties (schemas : List (String × List Keyword))
  | items (schema : List Keyword)
  | oneOf (schemas : List (List Keyword))
  | const (text : String)
  | minItems (count : Word)
  | conditional (test consequence alternative : List Keyword)
  | note (name : String) (value : Json)

/-- A JSON Schema asks of a value what all its keywords ask. -/
abbrev Schema := List Keyword

namespace Schema

mutual

/-- What one keyword asks of a value. A keyword about objects or arrays asks nothing of other values, and a note
    asks nothing at all. -/
def accepts : Keyword → Json → Bool
  | .type kinds, value => kinds.contains value.kind
  | .required keys, .object members => keys.all fun key => (members.lookup key).isSome
  | .required _, _ => true
  | .properties schemas, .object members => acceptsMembers schemas members
  | .properties _, _ => true
  | .items schema, .array items => items.all fun item => acceptsAll schema item
  | .items _, _ => true
  | .oneOf schemas, value => countAccepting schemas value == 1
  | .const text, value => value.string? == some text
  | .minItems count, .array items => decide (count.val ≤ items.length)
  | .minItems _, _ => true
  | .conditional test consequence alternative, value =>
    if acceptsAll test value then acceptsAll consequence value else acceptsAll alternative value
  | .note _ _, _ => true

/-- Whether a value conforms to a schema. -/
def acceptsAll : List Keyword → Json → Bool
  | [], _ => true
  | keyword :: schema, value => accepts keyword value && acceptsAll schema value

def acceptsMembers : List (String × List Keyword) → Members → Bool
  | [], _ => true
  | (name, schema) :: schemas, members =>
    (match members.lookup name with
      | none => true
      | some value => acceptsAll schema value) && acceptsMembers schemas members

def countAccepting : List (List Keyword) → Json → Nat
  | [], _ => 0
  | schema :: schemas, value => (if acceptsAll schema value then 1 else 0) + countAccepting schemas value

end

mutual

/-- The members that write one keyword. -/
def membersOf : Keyword → Members
  | .type [kind] => [("type", .string kind.name)]
  | .type kinds => [("type", .array (kinds.map fun kind => .string kind.name))]
  | .required keys => [("required", .array (keys.map .string))]
  | .properties schemas => [("properties", .ofMembers (membersOfEach schemas))]
  | .items schema => [("items", .ofMembers (membersOfAll schema))]
  | .oneOf schemas => [("oneOf", .array (valuesOf schemas))]
  | .const text => [("const", .string text)]
  | .minItems count => [("minItems", .number (.natural count))]
  | .conditional test consequence alternative => [
      ("if", .ofMembers (membersOfAll test)),
      ("then", .ofMembers (membersOfAll consequence)),
      ("else", .ofMembers (membersOfAll alternative))]
  | .note name value => [(name, value)]

def membersOfAll : List Keyword → Members
  | [] => []
  | keyword :: schema => membersOf keyword ++ membersOfAll schema

def membersOfEach : List (String × List Keyword) → Members
  | [] => []
  | (name, schema) :: schemas => (name, .ofMembers (membersOfAll schema)) :: membersOfEach schemas

def valuesOf : List (List Keyword) → List Json
  | [] => []
  | schema :: schemas => .ofMembers (membersOfAll schema) :: valuesOf schemas

end

/-- The JSON value that states a schema. -/
def toJson (schema : Schema) : Json :=
  .ofMembers (membersOfAll schema)

end Schema

end ContactForm
