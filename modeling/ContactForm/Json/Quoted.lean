import ContactForm.Json.Fault

namespace ContactForm.Quoted

/-- The hexadecimal digit of a number below 16. -/
def hexDigit (n : Nat) : Char :=
  if n < 10 then Char.ofNat (48 + n) else Char.ofNat (87 + n)

/-- Only the quote, the backslash and the characters below the space are written in another way than as themselves. -/
def escape (c : Char) : String :=
  match c with
  | '"' => "\\\""
  | '\\' => "\\\\"
  | '\x08' => "\\b"
  | '\t' => "\\t"
  | '\n' => "\\n"
  | '\x0c' => "\\f"
  | '\r' => "\\r"
  | c =>
    if c.toNat < 0x20 then String.ofList ['\\', 'u', '0', '0', hexDigit (c.toNat / 16), hexDigit (c.toNat % 16)]
    else String.singleton c

/-- Writes a string between quotes at the end of `out`. -/
def write (s : String) (out : String) : String :=
  (s.toList.foldl (fun out c => out ++ escape c) (out.push '"')).push '"'

def hexValue? (c : Char) : Option Nat :=
  if '0' ≤ c ∧ c ≤ '9' then some (c.toNat - 48)
  else if 'a' ≤ c ∧ c ≤ 'f' then some (c.toNat - 87)
  else if 'A' ≤ c ∧ c ≤ 'F' then some (c.toNat - 55)
  else none

/-- The 16-bit unit that four hexadecimal digits name. -/
def unit? (a b c d : Char) : Option Nat := do
  return (((← hexValue? a) * 16 + (← hexValue? b)) * 16 + (← hexValue? c)) * 16 + (← hexValue? d)

def isLeading (unit : Nat) : Bool := 0xd800 ≤ unit && unit < 0xdc00

def isTrailing (unit : Nat) : Bool := 0xdc00 ≤ unit && unit < 0xe000

/-- The character that a leading and a trailing surrogate stand for. -/
def pair (leading trailing : Nat) : Char :=
  Char.ofNat (0x10000 + (leading - 0xd800) * 0x400 + (trailing - 0xdc00))

/-- The fault of four bytes that do not begin `digits` as hexadecimal digits. -/
def hexFault (digits : List Char) : Fault :=
  if byteCount digits < 4 then .atEnd .endOfString else ⟨.escape, byteCount digits - 4⟩

/-- The fault of what stands after a leading surrogate where no `\u` does. -/
def pairFault : List Char → Fault
  | [] => .atEnd .endOfString
  | '\\' :: [] => .atEnd .endOfString
  | '\\' :: rest => .upon .pairEscape rest
  | rest => .upon .pairEscape rest

/-- The character that a backslash and the given one stand for. -/
def unescape? : Char → Option Char
  | '"' => some '"'
  | '\\' => some '\\'
  | '/' => some '/'
  | 'b' => some '\x08'
  | 'f' => some '\x0c'
  | 'n' => some '\n'
  | 'r' => some '\r'
  | 't' => some '\t'
  | _ => none

/-- Reads the rest of a string, after its opening quote; `done` holds its characters so far, the last one first. -/
def read (done : List Char) : List Char → Except Fault (Read String)
  | [] => .error (.atEnd .endOfString)
  | '"' :: rest => .ok (String.ofList done.reverse, rest)
  | ['\\'] => .error (.atEnd .endOfString)
  | '\\' :: 'u' :: a :: b :: c :: d :: rest =>
    match unit? a b c d with
    | none => .error (hexFault (a :: b :: c :: d :: rest))
    | some unit =>
      if isTrailing unit then .error (.before .loneSurrogate rest)
      else if isLeading unit then
        match rest with
        | '\\' :: 'u' :: a :: b :: c :: d :: rest =>
          match unit? a b c d with
          | none => .error (hexFault (a :: b :: c :: d :: rest))
          | some trailing =>
            if isTrailing trailing then read (pair unit trailing :: done) rest
            else .error (.before .loneSurrogate rest)
        | '\\' :: 'u' :: digits => .error (hexFault digits)
        | rest => .error (pairFault rest)
      else read (Char.ofNat unit :: done) rest
  | '\\' :: 'u' :: digits => .error (hexFault digits)
  | '\\' :: c :: rest =>
    match unescape? c with
    | some c => read (c :: done) rest
    | none => .error (.upon .escape (c :: rest))
  | c :: rest =>
    if c.toNat < 0x20 then .error (.upon .controlCharacter (c :: rest))
    else read (c :: done) rest

end ContactForm.Quoted
