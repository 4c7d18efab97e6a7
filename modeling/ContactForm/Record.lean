import ContactForm.Violation

namespace ContactForm

/-- What the value of a field may be; a text is a string or an array of strings. -/
inductive Shape where
  | string | boolean | array | object | text
deriving DecidableEq, Repr

/-- A field that an object declares. -/
structure Row where
  name : String
  shape : Shape
  required : Bool
deriving DecidableEq, Repr

/-- Lines become one text with a space between them. -/
def joinLines (lines : List String) : String :=
  " ".intercalate lines

namespace Shape

def name : Shape → String
  | .string => "string"
  | .boolean => "boolean"
  | .array => "array"
  | .object => "object"
  | .text => "string or array of strings"

/-- Requires strings from index `i` on. -/
def checkLines (path : Locator) (i : Nat) : List Json → Except Violation Unit
  | [] => .ok ()
  | .string _ :: rest => checkLines path (i + 1) rest
  | value :: _ => .error ⟨path.index i, .typeMismatch Shape.string.name value.kind.name⟩

def check (path : Locator) : Shape → Json → Except Violation Unit
  | .string, .string _ => .ok ()
  | .boolean, .bool _ => .ok ()
  | .array, .array _ => .ok ()
  | .object, .object _ => .ok ()
  | .text, .string _ => .ok ()
  | .text, .array lines => checkLines path 0 lines
  | shape, value => .error ⟨path, .typeMismatch shape.name value.kind.name⟩

end Shape

namespace Row

def requires (name : String) (shape : Shape) : Row := ⟨name, shape, true⟩

def allows (name : String) (shape : Shape) : Row := ⟨name, shape, false⟩

/-- A required field has to be there with a value of its shape; an optional one may also be absent or null. -/
def check (members : Members) (path : Locator) (row : Row) : Except Violation Unit :=
  match members.lookup row.name, row.required with
  | none, true => .error ⟨path.key row.name, .missingField row.shape.name⟩
  | none, false => .ok ()
  | some .null, false => .ok ()
  | some value, _ => row.shape.check (path.key row.name) value

end Row

/-- Checks the rows of a table in order, up to the first that is broken. -/
def checkTable (members : Members) (path : Locator) : List Row → Except Violation Unit
  | [] => .ok ()
  | row :: rows => do
    row.check members path
    checkTable members path rows

def Json.expectObject (path : Locator) : Json → Except Violation Members
  | .object members => .ok members
  | value => .error ⟨path, .typeMismatch Shape.object.name value.kind.name⟩

/-- The keys that no row declares, in the order of the members. -/
def undeclared (table : List Row) (members : Members) : List String :=
  (members.map (·.1)).filter fun key => !table.any (·.name == key)

/-- An object that passed its table, and its place in the document. -/
structure Record where
  members : Members
  path : Locator

namespace Record

def ofTable (table : List Row) (members : Members) (path : Locator) : Except Violation Record := do
  checkTable members path table
  return ⟨members, path⟩

/-- The value of a field that is there and not null. -/
def present? (r : Record) (name : String) : Option Json :=
  (r.members.lookup name).filter (!·.isNull)

def string? (r : Record) (name : String) : Option String :=
  (r.present? name).bind Json.string?

def bool? (r : Record) (name : String) : Option Bool :=
  (r.present? name).bind Json.bool?

def array? (r : Record) (name : String) : Option (List Json) :=
  (r.present? name).bind Json.array?

def object? (r : Record) (name : String) : Option Members :=
  (r.present? name).bind Json.object?

def textOf? : Json → Option String
  | .string s => some s
  | .array lines => (lines.mapM Json.string?).map joinLines
  | _ => none

def text? (r : Record) (name : String) : Option String :=
  (r.present? name).bind textOf?

/-- The violation of a field without a usable value; a table that declares the field rules it out. -/
def unusable (r : Record) (name : String) (shape : Shape) : Violation :=
  match r.members.lookup name with
  | none => ⟨r.path.key name, .missingField shape.name⟩
  | some value => ⟨r.path.key name, .typeMismatch shape.name value.kind.name⟩

def string (r : Record) (name : String) : Except Violation String :=
  match r.string? name with
  | some s => .ok s
  | none => .error (r.unusable name .string)

def bool (r : Record) (name : String) : Except Violation Bool :=
  match r.bool? name with
  | some b => .ok b
  | none => .error (r.unusable name .boolean)

def text (r : Record) (name : String) : Except Violation String :=
  match r.text? name with
  | some s => .ok s
  | none => .error (r.unusable name .text)

end Record

end ContactForm
