import Criteria.Number.Shortest

/-!
# How numbers are written

Two layouts are in use. Texts for people and for text comparison never use an exponent and write
whole numbers without a point. JSON keeps one digit behind the point, and writes an exponent, always
with its sign, once the first digit stands too far from the point.
-/

namespace Criteria

/-- A way of writing doubles. -/
structure Layout where
  /-- Which of two equally near decimals is taken. -/
  tie : TieRule
  /-- The powers of ten of the first digit for which no exponent is written; all if absent. -/
  positional : Option (Int × Int)
  /-- Whether a whole number is written with `.0` behind it. -/
  pointZero : Bool
  /-- What is written when there is no number. -/
  nan : String
  /-- What is written for infinity. -/
  infinity : String
  /-- What is written for negative infinity. -/
  negativeInfinity : String

namespace Layout

/-- Plain text: digits and a point, nothing else. -/
def plain : Layout :=
  { tie := .up
    positional := none
    pointZero := false
    nan := "NaN"
    infinity := "inf"
    negativeInfinity := "-inf" }

/-- JSON has no way to write what is not a finite number. -/
def json : Layout :=
  { tie := .even
    positional := some (-5, 15)
    pointZero := true
    nan := "null"
    infinity := "null"
    negativeInfinity := "null" }

/-- The decimal digits of a natural number. -/
def digitsOf (n : Nat) : List Char := Nat.toDigits 10 n

/-- Digits with a point `exponent` places from their end, filled up with zeros where the point lies
outside them. -/
def positionalText (pointZero : Bool) (digits : List Char) (exponent : Int) : List Char :=
  if 0 ≤ exponent then
    digits ++ List.replicate exponent.toNat '0' ++ (if pointZero then ['.', '0'] else [])
  else
    let places := (-exponent).toNat
    let padded := List.replicate (places + 1 - digits.length) '0' ++ digits
    padded.take (padded.length - places) ++ '.' :: padded.drop (padded.length - places)

/-- One digit, the others behind a point, and the power of ten of the first. -/
def exponentText (digits : List Char) (power : Int) : List Char :=
  let mantissa :=
    match digits with
    | first :: second :: rest => first :: '.' :: second :: rest
    | _ => digits
  mantissa ++ 'e' :: (if power < 0 then '-' else '+') :: digitsOf power.natAbs

/-- The text of a positive decimal. -/
def scientificText (l : Layout) (s : Scientific) : List Char :=
  let digits := digitsOf s.digits
  let power := s.exponent + (digits.length - 1 : Nat)
  let isPositional :=
    match l.positional with
    | none => true
    | some (low, high) => low ≤ power && power ≤ high
  if isPositional then positionalText l.pointZero digits s.exponent else exponentText digits power

/-- The text of a finite magnitude. -/
def magnitudeText (l : Layout) (m : Magnitude) : List Char :=
  if m.rank = 0 then positionalText l.pointZero ['0'] 0 else l.scientificText (m.shortest l.tie)

/-- The text of a double. -/
def text (l : Layout) : Double → String
  | .nan => l.nan
  | .signed negative m =>
    if !m.isFinite then if negative then l.negativeInfinity else l.infinity
    else String.ofList ((if negative then ['-'] else []) ++ l.magnitudeText m)

end Layout

/-- The plain text of a double. -/
def Double.text (x : Double) : String := Layout.plain.text x

/-- Plain text writes no point behind a whole number, and the sign of a zero. -/
example : (Double.ofInt 30).text = "30" ∧ (Double.signed true .zero).text = "-0" := by
  decide +kernel

end Criteria
