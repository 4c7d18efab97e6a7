import ContactForm.Json.Numeral
import ContactForm.Json.Quoted

namespace ContactForm

/-- How the parts of a container are set apart: on one line, or each on a line of its own, two spaces further in
    than the container. -/
inductive Layout where
  | compact
  | indented (depth : Nat)
deriving DecidableEq, Repr

namespace Layout

def deeper : Layout → Layout
  | .compact => .compact
  | .indented depth => .indented (depth + 1)

/-- What stands before each part of a container, and before the bracket that closes it. -/
def lineBreak : Layout → String
  | .compact => ""
  | .indented depth => String.ofList ('\n' :: List.replicate (2 * depth) ' ')

def colon : Layout → String
  | .compact => ":"
  | .indented _ => ": "

end Layout

namespace Json

mutual

/-- Writes a value at the end of `out`. -/
def write (layout : Layout) : Json → String → String
  | .null, out => out ++ "null"
  | .bool true, out => out ++ "true"
  | .bool false, out => out ++ "false"
  | .number n, out => out ++ String.ofList (Numeral.text n)
  | .string s, out => Quoted.write s out
  | .array [], out => out ++ "[]"
  | .array (item :: items), out =>
    let inner := layout.deeper
    writeItems inner items (write inner item (out ++ "[" ++ inner.lineBreak)) ++ layout.lineBreak ++ "]"
  | .object [], out => out ++ "\x7b\x7d"
  | .object ((key, value) :: members), out =>
    let inner := layout.deeper
    let out := Quoted.write key (out ++ "\x7b" ++ inner.lineBreak) ++ inner.colon
    writeMembers inner members (write inner value out) ++ layout.lineBreak ++ "\x7d"

def writeItems (layout : Layout) : List Json → String → String
  | [], out => out
  | item :: items, out => writeItems layout items (write layout item (out ++ "," ++ layout.lineBreak))

def writeMembers (layout : Layout) : List (String × Json) → String → String
  | [], out => out
  | (key, value) :: members, out =>
    let out := Quoted.write key (out ++ "," ++ layout.lineBreak) ++ layout.colon
    writeMembers layout members (write layout value out)

end

/-- The text of a value on one line. -/
def compact (value : Json) : String :=
  value.write .compact ""

/-- The text of a value with each part on a line of its own. -/
def pretty (value : Json) : String :=
  value.write (.indented 0) ""

end Json

end ContactForm
