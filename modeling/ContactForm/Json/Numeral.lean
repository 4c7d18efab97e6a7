import ContactForm.Json.Fault
import ContactForm.Json.Shortest
import ContactForm.Json.Value

namespace ContactForm.Numeral

def digitValue (c : Char) : Nat := c.toNat - 48

/-- Appends digits to the number `n` as long as it stays below `bound`, and hands back the digits left over. -/
def absorb (bound n : Nat) : List Char → Nat × List Char
  | [] => (n, [])
  | c :: rest =>
    if 10 * n + digitValue c < bound then absorb bound (10 * n + digitValue c) rest
    else (n, c :: rest)

/-- Reads the digits before a point: a zero stands alone. -/
def readWhole (text : List Char) : Except Fault (Read (List Char)) :=
  match text with
  | [] => .error (.atEnd .endOfValue)
  | c :: rest =>
    if !c.isDigit then .error (.upon .number text)
    else if c = '0' then
      match rest with
      | d :: _ => if d.isDigit then .error (.upon .number rest) else .ok (['0'], rest)
      | [] => .ok (['0'], [])
    else .ok (text.span Char.isDigit)

/-- Reads a run of digits that has to be there. -/
def readDigits (text : List Char) : Except Fault (Read (List Char)) :=
  match text with
  | [] => .error (.atEnd .endOfValue)
  | c :: _ => if c.isDigit then .ok (text.span Char.isDigit) else .error (.upon .number text)

/-- Reads the sign of an exponent, which may be left out, and tells whether it is a minus. -/
def readSign : List Char → Bool × List Char
  | '-' :: rest => (true, rest)
  | '+' :: rest => (false, rest)
  | rest => (false, rest)

/-- The outcome for a magnitude of a numeral that ends before `rest`, where there is one that is finite. -/
def finite (negative : Bool) (rest : List Char) : Option Binary64 → Except Fault (Read Number)
  | some x => .ok (.binary (x.withSign negative), rest)
  | none => .error (.before .numberRange rest)

/-- The binary64 number `n * 10 ^ exponent` of a numeral that ends before `rest`. -/
def scaled (negative : Bool) (n : Nat) (exponent : Int) (rest : List Char) : Except Fault (Read Number) :=
  finite negative rest (Binary64.ofDecimal? n exponent)

/-- Written exponents stay below this one. -/
def exponentLimit : Nat := 0x80000000

/-- Reads the exponent of a numeral after its mark. A larger exponent is not computed with:
    the number is zero, or too large as soon as the exponent is. -/
def readExponent (negative : Bool) (n : Nat) (exponent : Int) (text : List Char) : Except Fault (Read Number) := do
  let (lowers, text) := readSign text
  let (digits, rest) ← readDigits text
  match absorb exponentLimit 0 digits with
  | (written, []) => scaled negative n (if lowers then exponent - written else exponent + written) rest
  | (_, _ :: surplus) =>
    if n ≠ 0 ∧ !lowers then .error (.before .numberRange (surplus ++ rest))
    else .ok (.binary (Binary64.zero.withSign negative), rest)

/-- The integer of a numeral without point and exponent, where 64 bits hold it; a negative zero has to keep its sign. -/
def integer? (negative : Bool) (n : Nat) : Option Number :=
  if negative then
    if h : 0 < n ∧ n ≤ 0x8000000000000000 then some (.negative ⟨n - 1, by omega⟩) else none
  else if h : n < wordLimit then some (.natural ⟨n, h⟩)
  else none

/-- Reads a number after its minus sign, if it had one. Digits count up to the 64 bits of the significand:
    those before the point that are left over raise the exponent, those after it are passed over. -/
def read (negative : Bool) (text : List Char) : Except Fault (Read Number) := do
  let (whole, rest) ← readWhole text
  let (n, surplus) := absorb wordLimit 0 whole
  match rest with
  | '.' :: rest =>
    let (fraction, rest) ← readDigits rest
    let (n, passed) := absorb wordLimit n fraction
    let exponent : Int := surplus.length - (fraction.length - passed.length : Nat)
    match rest with
    | 'e' :: rest => readExponent negative n exponent rest
    | 'E' :: rest => readExponent negative n exponent rest
    | rest => scaled negative n exponent rest
  | 'e' :: rest => readExponent negative n surplus.length rest
  | 'E' :: rest => readExponent negative n surplus.length rest
  | rest =>
    match surplus, integer? negative n with
    | [], some number => .ok (number, rest)
    | _, _ => scaled negative n surplus.length rest

/-- Numbers whose first digit counts from `10 ^ -5` to `10 ^ 15` are written with a point among or after their digits,
    others with one digit before the point and a signed exponent. -/
def writesPoint (leading : Int) : Bool :=
  -5 ≤ leading && leading ≤ 15

/-- Writes the decimal number of the given digits; with a point it has a digit on both sides of it. -/
def layout (digits : List Char) (exponent : Int) : List Char :=
  let leading := exponent + digits.length - 1
  if writesPoint leading then
    if 0 ≤ exponent then digits ++ List.replicate exponent.toNat '0' ++ ['.', '0']
    else if 0 ≤ leading then digits.take (leading.toNat + 1) ++ '.' :: digits.drop (leading.toNat + 1)
    else '0' :: '.' :: List.replicate (-leading - 1).toNat '0' ++ digits
  else
    let fraction := digits.drop 1
    digits.take 1 ++ (if fraction.isEmpty then [] else '.' :: fraction) ++
      'e' :: (if leading < 0 then '-' else '+') :: Nat.toDigits 10 leading.natAbs

def binary (x : Binary64) : List Char :=
  let magnitude :=
    if x.isZero then ['0', '.', '0']
    else layout (Nat.toDigits 10 x.shortest.digits) x.shortest.exponent
  if x.negative then '-' :: magnitude else magnitude

/-- The text of a number; reading it gives a number of the same form. -/
def text : Number → List Char
  | .natural n => Nat.toDigits 10 n
  | .negative n => '-' :: Nat.toDigits 10 (n + 1)
  | .binary x => binary x

end ContactForm.Numeral
