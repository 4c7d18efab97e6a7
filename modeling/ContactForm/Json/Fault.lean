namespace ContactForm

/-- Why a text is not JSON. -/
inductive Reason where
  | endOfList | endOfObject | endOfString | endOfValue
  | colon | listSeparator | objectSeparator
  | word | value | key
  | escape | pairEscape | loneSurrogate | controlCharacter
  | number | numberRange
  | trailingComma | trailingCharacters | nesting
deriving DecidableEq, Repr

def Reason.message : Reason → String
  | .endOfList => "EOF while parsing a list"
  | .endOfObject => "EOF while parsing an object"
  | .endOfString => "EOF while parsing a string"
  | .endOfValue => "EOF while parsing a value"
  | .colon => "expected `:`"
  | .listSeparator => "expected `,` or `]`"
  | .objectSeparator => "expected `,` or `\x7d`"
  | .word => "expected ident"
  | .value => "expected value"
  | .key => "key must be a string"
  | .escape => "invalid escape"
  | .pairEscape => "unexpected end of hex escape"
  | .loneSurrogate => "lone leading surrogate in hex escape"
  | .controlCharacter => "control character (\\u0000-\\u001F) found while parsing a string"
  | .number => "invalid number"
  | .numberRange => "number out of range"
  | .trailingComma => "trailing comma"
  | .trailingCharacters => "trailing characters"
  | .nesting => "recursion limit exceeded"

/-- Where reading stopped is told by how many bytes were left, so that a step needs to know nothing of the text before it. -/
structure Fault where
  reason : Reason
  unread : Nat
deriving DecidableEq, Repr

/-- What was read, and the characters after it. -/
abbrev Read (α : Type) := α × List Char

/-- How many bytes the characters take in UTF-8. -/
def byteCount (text : List Char) : Nat :=
  text.foldl (fun count c => count + c.utf8Size) 0

namespace Fault

/-- A fault seen before anything of `rest` was read. -/
def before (reason : Reason) (rest : List Char) : Fault :=
  ⟨reason, byteCount rest⟩

/-- A fault at the first byte of `rest`, or at the end where nothing is left. -/
def upon (reason : Reason) (rest : List Char) : Fault :=
  ⟨reason, byteCount rest - 1⟩

def atEnd (reason : Reason) : Fault :=
  ⟨reason, 0⟩

/-- The line, and the column in bytes, of the last byte read of a text. -/
def position (text : String) (fault : Fault) : Nat × Nat :=
  let bytes := text.toUTF8.data.toList
  let reading := bytes.take (bytes.length - fault.unread)
  (1 + reading.count 10, (reading.reverse.takeWhile (· != 10)).length)

def message (text : String) (fault : Fault) : String :=
  let (line, column) := fault.position text
  s!"{fault.reason.message} at line {line} column {column}"

end Fault

end ContactForm
