import ContactForm.Json.Value

namespace ContactForm.Json

/-- Undoes the two escapes of a pointer token: `~1` is a slash and `~0` a tilde. -/
def unescapeToken : List Char → List Char
  | '~' :: '1' :: rest => '/' :: unescapeToken rest
  | '~' :: '0' :: rest => '~' :: unescapeToken rest
  | c :: rest => c :: unescapeToken rest
  | [] => []

/-- An index is a run of digits that does not start with a zero, or zero itself. -/
def tokenIndex? (token : List Char) : Option Nat :=
  if token.isEmpty || !token.all Char.isDigit || (token.head? == some '0' && token.length != 1) then none
  else some (token.foldl (fun n c => 10 * n + (c.toNat - 48)) 0)

def follow? (value : Json) : List (List Char) → Option Json
  | [] => some value
  | token :: tokens =>
    match value with
    | .object members => do (← members.lookup (String.ofList token)).follow? tokens
    | .array items => do (← items[(← tokenIndex? token)]?).follow? tokens
    | _ => none

/-- The part of a value that a pointer names: the whole for the empty one, else one step for each slash. -/
def pointer? (value : Json) (pointer : String) : Option Json :=
  match pointer.toList with
  | [] => some value
  | '/' :: tokens => value.follow? ((tokens.splitOn '/').map unescapeToken)
  | _ => none

end ContactForm.Json
