import Std.Data.TreeMap.Basic
import ContactForm.Json.Binary64

namespace ContactForm

abbrev wordLimit : Nat := 0x10000000000000000

/-- A natural number of 64 bits. -/
abbrev Word := Fin wordLimit

/-- A JSON number: a natural number of 64 bits, the negative integer `-(n + 1)` of 64 bits, or a finite binary64
    number. -/
inductive Number where
  | natural (n : Word)
  | negative (n : Fin 0x8000000000000000)
  | binary (x : Binary64)
deriving DecidableEq, Repr

/-- Numbers of different forms are never the same: the integer one is not the binary64 one. -/
def Number.same : Number → Number → Bool
  | .binary x, .binary y => x.same y
  | m, n => m == n

/-- A JSON value. Objects that were read or built with `Json.ofMembers` hold each key once, in ascending order. -/
inductive Json where
  | null
  | bool (b : Bool)
  | number (n : Number)
  | string (s : String)
  | array (items : List Json)
  | object (members : List (String × Json))
deriving Inhabited

/-- The keys of an object with their values. -/
abbrev Members := List (String × Json)

/-- The six kinds of JSON value. -/
inductive Kind where
  | null | boolean | number | string | array | object
deriving DecidableEq, Repr

def Kind.name : Kind → String
  | .null => "null"
  | .boolean => "boolean"
  | .number => "number"
  | .string => "string"
  | .array => "array"
  | .object => "object"

namespace Members

/-- The given members by ascending key; of the values of a repeated key the last one counts. -/
def ofList (members : List (String × Json)) : Members :=
  (Std.TreeMap.ofList members).toList

/-- Gives `key` the value in an object sorted by key, in place of any value it had. -/
def set (key : String) (value : Json) (members : Members) : Members :=
  members.takeWhile (fun member => decide (member.1 < key)) ++
    (key, value) :: (members.dropWhile fun member => decide (member.1 < key)).filter (·.1 != key)

end Members

namespace Json

/-- The object of the given members, in any order. -/
def ofMembers (members : List (String × Json)) : Json :=
  .object (Members.ofList members)

def kind : Json → Kind
  | .null => .null
  | .bool _ => .boolean
  | .number _ => .number
  | .string _ => .string
  | .array _ => .array
  | .object _ => .object

def isNull : Json → Bool
  | .null => true
  | _ => false

def string? : Json → Option String
  | .string s => some s
  | _ => none

def bool? : Json → Option Bool
  | .bool b => some b
  | _ => none

def array? : Json → Option (List Json)
  | .array items => some items
  | _ => none

def object? : Json → Option Members
  | .object members => some members
  | _ => none

mutual

/-- Equality of values, with numbers compared by `Number.same`. -/
def same : Json → Json → Bool
  | .null, .null => true
  | .bool a, .bool b => a == b
  | .number m, .number n => m.same n
  | .string s, .string t => s == t
  | .array xs, .array ys => sameItems xs ys
  | .object xs, .object ys => sameMembers xs ys
  | _, _ => false

def sameItems : List Json → List Json → Bool
  | [], [] => true
  | x :: xs, y :: ys => same x y && sameItems xs ys
  | _, _ => false

def sameMembers : List (String × Json) → List (String × Json) → Bool
  | [], [] => true
  | (k, x) :: xs, (l, y) :: ys => k == l && same x y && sameMembers xs ys
  | _, _ => false

end

end Json

end ContactForm
