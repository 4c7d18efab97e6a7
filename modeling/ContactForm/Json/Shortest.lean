import ContactForm.Json.Binary64

namespace ContactForm

/-- The decimal number `digits * 10 ^ exponent`. -/
structure Decimal where
  digits : Nat
  exponent : Int
deriving DecidableEq, Repr

namespace Binary64

/-- The ratios that round to a number, as a range of numerators over `denominator`; the ends belong to it
    where the significand is even, since ties go to the even neighbour. -/
structure Span where
  low : Nat
  middle : Nat
  high : Nat
  closed : Bool

/-- Quarters of the smallest unit are fine enough for the half steps to both neighbours. Below a power of two
    the neighbour is half as far as above it. -/
def span (x : Binary64) : Span :=
  let step := 1 <<< x.scale
  let below := if x.significand = leadingBit ∧ 0 < x.scale then step else 2 * step
  { low := 4 * x.units - below
    middle := 4 * x.units
    high := 4 * x.units + 2 * step
    closed := x.significand % 2 == 0 }

namespace Span

def denominator : Nat := 4 * unitsPerOne

def contains (s : Span) (numerator scale : Nat) : Bool :=
  if s.closed then s.low * scale ≤ numerator && numerator ≤ s.high * scale
  else s.low * scale < numerator && numerator < s.high * scale

/-- The multiple of `10 ^ exponent` in the span that is nearest to its middle, the even one of two as near. -/
def onGrid? (s : Span) (exponent : Int) : Option Decimal :=
  let raise := tenTo exponent.toNat * denominator
  let lower := tenTo (-exponent).toNat
  let middle := s.middle * lower
  let floor := middle / raise
  let downward := s.contains (floor * raise) lower
  let upward := s.contains ((floor + 1) * raise) lower
  let doubled := 2 * (middle % raise)
  if downward && (!upward || doubled < raise || (doubled == raise && floor % 2 == 0)) then some ⟨floor, exponent⟩
  else if upward then some ⟨floor + 1, exponent⟩
  else none

end Span

/-- The grids of larger powers of ten have no point but zero below the end of the number's span. -/
def topExponent (x : Binary64) : Int :=
  ((x.units.log2 : Int) - 1074) * 30103 / 100000 + 1

/-- The decimal number of fewest digits that rounds to a magnitude other than zero, the nearest one of these:
    the coarsest decimal grid that meets the span of the number has it. -/
def shortest (x : Binary64) : Decimal :=
  ((List.range 20).findSome? fun (below : Nat) => x.span.onGrid? (x.topExponent - below)).getD ⟨0, 0⟩

end Binary64

end ContactForm
