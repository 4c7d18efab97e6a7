namespace ContactForm

/-- A finite binary64 number: its sign, and the rank of its magnitude among the finite magnitudes in ascending order. -/
structure Binary64 where
  negative : Bool
  rank : Fin 0x7ff0000000000000
deriving DecidableEq, Repr

namespace Binary64

def zero : Binary64 := ⟨false, 0⟩

/-- The leading bit of a significand of 53 bits. -/
def leadingBit : Nat := 0x10000000000000

def tenTo (exponent : Nat) : Nat := Nat.pow 10 exponent

/-- The ranks below the leading bit are significands themselves; every further run of as many ranks goes through
    the significands that have it. -/
def significand (x : Binary64) : Nat :=
  if x.rank.val < leadingBit then x.rank.val else leadingBit + x.rank.val % leadingBit

/-- The spacing of the magnitudes next to `x` is `2 ^ scale` smallest units. -/
def scale (x : Binary64) : Nat :=
  x.rank.val / leadingBit - 1

/-- The magnitude counted in smallest units, of which `2 ^ 1074` make one. -/
def units (x : Binary64) : Nat :=
  x.significand <<< x.scale

def unitsPerOne : Nat := 1 <<< 1074

def isZero (x : Binary64) : Bool :=
  x.rank == 0

def withSign (negative : Bool) (x : Binary64) : Binary64 :=
  { x with negative }

/-- Equality of values: the two zeros are equal. -/
def same (x y : Binary64) : Bool :=
  x == y || (x.isZero && y.isZero)

/-- The quotient rounded to the nearest natural number, a half going to the even neighbour. -/
def roundHalfEven (numerator denominator : Nat) : Nat :=
  let floor := numerator / denominator
  let doubled := 2 * (numerator % denominator)
  if doubled < denominator then floor
  else if denominator < doubled then floor + 1
  else floor + floor % 2

/-- The nearest non-negative binary64 number to a ratio, ties to even; none where it is too large to be finite. -/
def ofRatio? (numerator denominator : Nat) : Option Binary64 :=
  let numerator := numerator * unitsPerOne
  let scale := (numerator / denominator).log2 - 52
  let rank := scale * leadingBit + roundHalfEven numerator (denominator <<< scale)
  if h : rank < 0x7ff0000000000000 then some ⟨false, ⟨rank, h⟩⟩ else none

def ofNat? (n : Nat) : Option Binary64 :=
  ofRatio? n 1

/-- The product of two magnitudes, rounded. -/
def mul? (x y : Binary64) : Option Binary64 :=
  ofRatio? (x.units * y.units) (unitsPerOne * unitsPerOne)

/-- The quotient of two magnitudes, rounded. -/
def div? (x y : Binary64) : Option Binary64 :=
  ofRatio? x.units y.units

/-- Divides `steps` times by the largest power of ten, stopping at zero. -/
def shrink? : Nat → Binary64 → Option Binary64
  | 0, x => some x
  | steps + 1, x =>
    if x.isZero then some x
    else do
      let largest ← ofNat? (tenTo 308)
      shrink? steps (← x.div? largest)

/-- Reads `digits * 10 ^ exponent` in binary64 steps: the digits are rounded first, then one power of ten
    (or several, where the exponent is below `-308`) is applied with a rounding of its own. -/
def ofDecimal? (digits : Nat) (exponent : Int) : Option Binary64 := do
  let x ← ofNat? digits
  match exponent with
  | .ofNat raise =>
    if raise ≤ 308 then x.mul? (← ofNat? (tenTo raise))
    else if x.isZero then some x
    else none
  | .negSucc lower =>
    let steps := lower / 308
    let x ← shrink? steps x
    x.div? (← ofNat? (tenTo (lower + 1 - 308 * steps)))

end Binary64

end ContactForm
