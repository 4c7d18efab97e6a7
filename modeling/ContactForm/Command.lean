import ContactForm.Path

namespace ContactForm

/-- What the program is asked to do. -/
inductive Command where
  | version
  | validate (config : Option Path)
  | normalize (config : Option Path)
  | prepare (config : Option Path) (port : UInt16) (route : Option String) (out : Path)
  | schema
  | exampleDocument
deriving DecidableEq, Repr

namespace Command

/-- An argument of the program, as the bytes it is made of. -/
abbrev Argument := List UInt8

def dash : UInt8 := 0x2d

def equals : UInt8 := 0x3d

def utf8 (text : String) : Argument := text.toUTF8.data.toList

/-- A single dash is a value as any other; what else starts with a dash is not. -/
def isValue (argument : Argument) : Bool :=
  argument.head? != some dash || argument == [dash]

/-- The name of a long option, and the value that an equals sign joins to it. -/
def option? : Argument → Option (Argument × Option Argument)
  | d :: e :: rest =>
    if d = dash ∧ e = dash ∧ rest ≠ [] then
      match rest.dropWhile (· != equals) with
      | [] => some (rest, none)
      | _ :: value => some (rest.takeWhile (· != equals), some value)
    else none
  | _ => none

/-- Two dashes, after which no argument is an option. -/
def endOfOptions : Argument := [dash, dash]

/-- Collects the options of a command, each of which is known, has a value and stands once. Nothing but options
    is an argument of it, so nothing may follow the end of options. -/
def options? (known : List String) (found : List (Argument × Argument)) : List Argument → Option (List (Argument × Argument))
  | [] => some found
  | argument :: rest =>
    if argument = endOfOptions then
      if rest.isEmpty then some found else none
    else do
      let (name, joined) ← option? argument
      if !(known.map utf8).contains name || (found.lookup name).isSome then none
      else
        match joined, rest with
        | some value, rest => options? known ((name, value) :: found) rest
        | none, value :: rest => if isValue value then options? known ((name, value) :: found) rest else none
        | none, [] => none

/-- A path that is not empty. -/
def path? (value : Argument) : Option Path :=
  if value.isEmpty then none else some ⟨value⟩

def text? (value : Argument) : Option String :=
  String.fromUTF8? ⟨value.toArray⟩

/-- A port is a decimal integer from 0 to 65535 that may have a sign. -/
def port? (value : Argument) : Option UInt16 := do
  let text := (← text? value).toList
  let (negative, digits) :=
    match text with
    | '-' :: digits => (true, digits)
    | '+' :: digits => (false, digits)
    | digits => (false, digits)
  if digits.isEmpty || !digits.all Char.isDigit then none
  else
    let n := digits.foldl (fun n c => 10 * n + (c.toNat - 48)) 0
    if n < 65536 ∧ (negative → n = 0) then some (UInt16.ofNat n) else none

/-- An option that may be left out; one that is there has to have a usable value. -/
def optional? {α : Type} (read : Argument → Option α) (found : List (Argument × Argument)) (name : String) :
    Option (Option α) :=
  match found.lookup (utf8 name) with
  | none => some none
  | some value => (read value).map some

def required? {α : Type} (read : Argument → Option α) (found : List (Argument × Argument)) (name : String) :
    Option α :=
  (found.lookup (utf8 name)).bind read

/-- The arguments after `config`. -/
def ofConfigArguments? : List Argument → Option Command
  | [] => none
  | name :: rest =>
    if name = utf8 "validate" then do
      return .validate (← optional? path? (← options? ["config"] [] rest) "config")
    else if name = utf8 "normalize" then do
      return .normalize (← optional? path? (← options? ["config"] [] rest) "config")
    else if name = utf8 "prepare" then do
      let found ← options? ["config", "port", "submit-route", "out"] [] rest
      return .prepare (← optional? path? found "config") (← required? port? found "port")
        (← optional? text? found "submit-route") (← required? path? found "out")
    else if name = utf8 "schema" then
      (options? [] [] rest).map fun _ => .schema
    else if name = utf8 "example" then
      (options? [] [] rest).map fun _ => .exampleDocument
    else none

/-- The command that the arguments of the program ask for; none where they make no sense. -/
def ofArguments? : List Argument → Option Command
  | [] => none
  | argument :: rest =>
    if argument = utf8 "config" then ofConfigArguments? rest
    else if argument = utf8 "--version" ∨ argument.take 2 = utf8 "-V" then some .version
    else none

end Command

end ContactForm
