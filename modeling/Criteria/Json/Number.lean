import Criteria.Json
import Criteria.Number.Decimal

/-!
# Numbers in JSON texts

    number   := "-"? whole fraction? exponent?
    whole    := "0" | nonzero digit*
    fraction := "." digit+
    exponent := ("e" | "E") ("+" | "-")? digit+

A number without fraction and exponent is an integer where 64 bits hold it; the negative zero, which
no integer can be, is a double, and so is everything else. A double is made in three rounded steps:
the digits as far as 64 bits hold them, the power of ten, and their product or quotient. It may
therefore differ in its last bit from the nearest one. What comes out infinite stands for nothing.
-/

namespace Criteria.Json

/-- Adds digits to a number as long as it stays below `2 ^ 64`; also the digits that are left. -/
def accumulate (n : Nat) : List Char → Nat × List Char
  | [] => (n, [])
  | c :: rest =>
    if 10 * n + digitValue c < UInt64.size then accumulate (10 * n + digitValue c) rest
    else (n, c :: rest)

/-- A power of ten as a magnitude. -/
def roundedPower (n : Nat) : Magnitude := .ofNat (powerOfTen n)

/-- The magnitude of `significand * 10 ^ exponent`; none if it is infinite. Powers above the
greatest that a double holds are divided by in two steps. -/
def scaled? (significand : Nat) (exponent : Int) : Option Magnitude :=
  let m := Magnitude.ofNat significand
  if significand = 0 then some .zero
  else if 308 < exponent then none
  else if 0 ≤ exponent then
    some (m.times (roundedPower exponent.toNat)) |>.filter Magnitude.isFinite
  else if -308 ≤ exponent then some (m.dividedBy (roundedPower (-exponent).toNat))
  else if -616 ≤ exponent then
    some ((m.dividedBy (roundedPower 308)).dividedBy (roundedPower (-exponent - 308).toNat))
  else some .zero

/-- The parts of a number as written. -/
structure NumberParts where
  /-- A minus stands in front. -/
  negative : Bool
  /-- The digits before the point. -/
  whole : List Char
  /-- The digits behind the point, if there is one. -/
  fraction : Option (List Char)
  /-- The power of ten, if one is written. -/
  power : Option Int

namespace NumberParts

/-- The double that the parts stand for. -/
def double? (p : NumberParts) : Option Double :=
  let (significand, dropped) := accumulate 0 p.whole
  let fraction := p.fraction.getD []
  let (significand, unread) := accumulate significand fraction
  let exponent : Int := p.power.getD 0 + dropped.length - (fraction.length - unread.length : Nat)
  (scaled? significand exponent).map (.signed p.negative)

/-- The number that the parts stand for. -/
def numeral? (p : NumberParts) : Option Numeral :=
  let n : Int := ofDigits 10 p.whole
  let isInteger := p.fraction.isNone && p.power.isNone && !(p.negative && n == 0)
  let integer := if isInteger then Numeral.ofInt? (if p.negative then -n else n) else none
  integer.or (p.double?.map .double)

/-- Reads the digits before the point: a zero or digits that do not begin with one. -/
def readWhole? (cs : List Char) : Option (List Char × List Char) :=
  match cs with
  | '0' :: rest => if (rest.head?.any Char.isDigit) then none else some (['0'], rest)
  | _ =>
    let digits := cs.takeWhile Char.isDigit
    if digits.isEmpty then none else some (digits, cs.dropWhile Char.isDigit)

/-- Reads a point and the digits behind it, if there is a point. -/
def readFraction? (cs : List Char) : Option (Option (List Char) × List Char) :=
  match cs with
  | '.' :: rest =>
    let digits := rest.takeWhile Char.isDigit
    if digits.isEmpty then none else some (some digits, rest.dropWhile Char.isDigit)
  | _ => some (none, cs)

/-- Reads a power of ten, if there is one. -/
def readPower? (cs : List Char) : Option (Option Int × List Char) :=
  match cs with
  | c :: rest =>
    if c == 'e' || c == 'E' then
      let (negative, rest) := takeSign rest
      let digits := rest.takeWhile Char.isDigit
      if digits.isEmpty then none
      else
        let n : Int := ofDigits 10 digits
        some (some (if negative then -n else n), rest.dropWhile Char.isDigit)
    else some (none, cs)
  | [] => some (none, [])

/-- Reads a number off the front of a text. -/
def read? (cs : List Char) : Option (NumberParts × List Char) := do
  let (negative, rest) :=
    match cs with
    | '-' :: rest => (true, rest)
    | _ => (false, cs)
  let (whole, rest) ← readWhole? rest
  let (fraction, rest) ← readFraction? rest
  let (power, rest) ← readPower? rest
  return (⟨negative, whole, fraction, power⟩, rest)

end NumberParts

/-- The number that a text stands for; the whole text has to be one. -/
def number? (s : String) : Option Numeral := do
  let (parts, rest) ← NumberParts.read? s.toList
  if rest.isEmpty then parts.numeral? else none

/-- A zero with a minus is a double, and the least integer is an integer. -/
example : number? "-0" = some (.double (.signed true .zero)) ∧
    number? "-9223372036854775808" = some (.int Int64.minValue) := by decide +kernel

end Criteria.Json
