import Criteria.Number.Double

/-!
# Shortest decimal digits

A finite magnitude is written with the fewest decimal digits that are read back as the same
magnitude; among those of that length the nearest to the exact value is taken. Where two are equally
near, the format that is being written says which.

A decimal is read back as a magnitude if it lies between the midpoints towards the two neighbours.
The midpoints themselves are read as the even neighbour, so they count for magnitudes of even rank.
Everything is compared in whole multiples of half a unit, `2 ^ -1075`.
-/

namespace Criteria

/-- What to take of two decimals that are equally near. -/
inductive TieRule where
  /-- The greater. -/
  | up
  /-- The one whose last digit is even. -/
  | even
  deriving DecidableEq, Repr

/-- A positive number in decimal: `digits * 10 ^ exponent`. -/
structure Scientific where
  /-- The digits, read as one whole number. -/
  digits : Nat
  /-- The power of ten that they count. -/
  exponent : Int
  deriving DecidableEq, Repr

namespace Magnitude

/-- The decimals that are read back as one magnitude, with the magnitude itself, in half units. -/
structure Span where
  /-- The midpoint towards the lower neighbour. -/
  low : Nat
  /-- The magnitude. -/
  value : Nat
  /-- The midpoint towards the upper neighbour. -/
  high : Nat
  /-- Whether the midpoints belong to the span. -/
  closed : Bool

/-- The span of a positive magnitude. -/
def span (m : Magnitude) : Span :=
  { low := unitsOfRank (m.rank - 1) + m.units
    value := 2 * m.units
    high := m.units + unitsOfRank (m.rank + 1)
    closed := m.rank % 2 == 0 }

/-- A number of half units, in a scale with `den` steps to the half unit. -/
def Span.contains (s : Span) (den n : Nat) : Bool :=
  if s.closed then s.low * den ≤ n && n ≤ s.high * den else s.low * den < n && n < s.high * den

/-- The digits at the grid of one power of ten: the grid point below the value or the one above it,
if it lies in the span; the nearer one if both do. A value below the first step of the grid has no
digits there. -/
def Span.digitsAt? (tie : TieRule) (s : Span) (exponent : Int) : Option Scientific :=
  let step := if 0 ≤ exponent then powerOfTen exponent.toNat <<< 1075 else 1 <<< 1075
  let den := if 0 ≤ exponent then 1 else powerOfTen (-exponent).toNat
  let below := s.value * den / step
  let twice := 2 * (s.value * den)
  let middle := (2 * below + 1) * step
  if below = 0 then none
  else
    match s.contains den (below * step), s.contains den ((below + 1) * step) with
    | false, false => none
    | true, false => some ⟨below, exponent⟩
    | false, true => some ⟨below + 1, exponent⟩
    | true, true =>
      if twice < middle then some ⟨below, exponent⟩
      else if middle < twice then some ⟨below + 1, exponent⟩
      else if tie = .even && below % 2 == 0 then some ⟨below, exponent⟩
      else some ⟨below + 1, exponent⟩

/-- A power of ten that is above a positive magnitude, by less than a factor of a thousand. -/
def tenAbove (m : Magnitude) : Int := ((m.units.log2 : Int) - 1073) * 30103 / 100000 + 1

/-- Drops zeros at the end of the digits, at most `fuel` of them. -/
def dropZeros : (fuel : Nat) → Scientific → Scientific
  | 0, s => s
  | fuel + 1, s =>
    if s.digits % 10 == 0 then dropZeros fuel ⟨s.digits / 10, s.exponent + 1⟩ else s

/-- The shortest decimal of a positive finite magnitude. The grids are tried from the coarsest on;
seventeen digits always suffice, so the search ends within twenty of them. -/
def shortest (tie : TieRule) (m : Magnitude) : Scientific :=
  let found := (List.range 21).findSome? fun i => m.span.digitsAt? tie (m.tenAbove - (i : Nat))
  dropZeros 20 (found.getD ⟨m.units, 0⟩)

end Magnitude

end Criteria
