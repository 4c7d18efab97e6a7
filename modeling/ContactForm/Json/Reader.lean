import ContactForm.Json.Numeral
import ContactForm.Json.Quoted

namespace ContactForm

namespace Reader

def isBlank (c : Char) : Bool :=
  c == ' ' || c == '\n' || c == '\t' || c == '\r'

def skipBlank (text : List Char) : List Char :=
  text.dropWhile isBlank

/-- Reads the letters of a word; what follows them is not looked at. -/
def readWord : List Char → List Char → Except Fault (List Char)
  | [], text => .ok text
  | _ :: _, [] => .error (.atEnd .endOfValue)
  | letter :: letters, c :: rest =>
    if c = letter then readWord letters rest else .error (.upon .word (c :: rest))

/-- Goes to the next element of a container: the first one stands at once, a later one after a comma. -/
def nextElement (first : Bool) (close : Char) (separator : Reason) (text : List Char) :
    Except Fault (List Char) :=
  match first, text with
  | true, text => .ok text
  | false, ',' :: rest =>
    match skipBlank rest with
    | [] => .error (.atEnd .endOfValue)
    | c :: rest => if c = close then .error (.upon .trailingComma (c :: rest)) else .ok (c :: rest)
  | false, text => .error (.upon separator text)

/-- Reads the elements of a list up to its closing bracket; `done` holds those read, the last one first.
    There are fewer than `fuel` of them, which the length of the text ensures. -/
def readItems (readValue : List Char → Except Fault (Read Json)) (fuel : Nat) (done : List Json) (text : List Char) :
    Except Fault (Read (List Json)) :=
  match fuel with
  | 0 => .error (.atEnd .endOfList)
  | fuel + 1 =>
    match skipBlank text with
    | [] => .error (.atEnd .endOfList)
    | ']' :: rest => .ok (done.reverse, rest)
    | text => do
      let text ← nextElement done.isEmpty ']' .listSeparator text
      let (item, rest) ← readValue text
      readItems readValue fuel (item :: done) rest

/-- Reads a key and the colon after it. -/
def readKey : List Char → Except Fault (Read String)
  | '"' :: rest => do
    let (key, rest) ← Quoted.read [] rest
    match skipBlank rest with
    | [] => .error (.atEnd .endOfObject)
    | ':' :: rest => .ok (key, rest)
    | rest => .error (.upon .colon rest)
  | text => .error (.upon .key text)

/-- Reads the members of an object up to its closing brace, as `readItems` does the elements of a list. -/
def readMembers (readValue : List Char → Except Fault (Read Json)) (fuel : Nat) (done : List (String × Json)) (text : List Char) :
    Except Fault (Read (List (String × Json))) :=
  match fuel with
  | 0 => .error (.atEnd .endOfObject)
  | fuel + 1 =>
    match skipBlank text with
    | [] => .error (.atEnd .endOfObject)
    | '\x7d' :: rest => .ok (done.reverse, rest)
    | text => do
      let text ← nextElement done.isEmpty '\x7d' .objectSeparator text
      let (key, rest) ← readKey text
      let (value, rest) ← readValue rest
      readMembers readValue fuel ((key, value) :: done) rest

/-- Reads one value with at most `depth` containers around each other in it. -/
def readValue (fuel depth : Nat) (text : List Char) : Except Fault (Read Json) :=
  match skipBlank text with
  | [] => .error (.atEnd .endOfValue)
  | 'n' :: rest => do return (.null, ← readWord ['u', 'l', 'l'] rest)
  | 't' :: rest => do return (.bool true, ← readWord ['r', 'u', 'e'] rest)
  | 'f' :: rest => do return (.bool false, ← readWord ['a', 'l', 's', 'e'] rest)
  | '"' :: rest => do
    let (s, rest) ← Quoted.read [] rest
    return (.string s, rest)
  | '[' :: rest =>
    match depth with
    | 0 => .error (.upon .nesting ('[' :: rest))
    | depth + 1 => do
      let (items, rest) ← readItems (readValue fuel depth) fuel [] rest
      return (.array items, rest)
  | '\x7b' :: rest =>
    match depth with
    | 0 => .error (.upon .nesting ('\x7b' :: rest))
    | depth + 1 => do
      let (members, rest) ← readMembers (readValue fuel depth) fuel [] rest
      return (.ofMembers members, rest)
  | '-' :: rest => do
    let (number, rest) ← Numeral.read true rest
    return (.number number, rest)
  | c :: rest =>
    if c.isDigit then do
      let (number, rest) ← Numeral.read false (c :: rest)
      return (.number number, rest)
    else .error (.upon .value (c :: rest))

/-- How many containers may stand around each other. -/
def maxDepth : Nat := 127

end Reader

/-- Reads a JSON text. -/
def Json.parse (text : String) : Except Fault Json := do
  let (value, rest) ← Reader.readValue (text.toList.length + 1) Reader.maxDepth text.toList
  match Reader.skipBlank rest with
  | [] => return value
  | rest => throw (.upon .trailingCharacters rest)

end ContactForm
