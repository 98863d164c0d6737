import Criteria.Number.Double

/-!
# Reading decimal numbers

Digits are the ten of ASCII. A decimal number is an optional sign, digits with at most one point
among or beside them, and an optional power of ten:

    decimal  := sign? ( digit+ ( "." digit* )? | "." digit+ ) exponent?
    exponent := ( "e" | "E" ) sign? digit+
    sign     := "+" | "-"
-/

namespace Criteria

/-- The number that a digit stands for, also for the letters of higher bases; other characters count
as zero. -/
def digitValue (c : Char) : Nat :=
  if c.isDigit then c.toNat - '0'.toNat
  else if 'a' ≤ c && c ≤ 'z' then c.toNat - 'a'.toNat + 10
  else if 'A' ≤ c && c ≤ 'Z' then c.toNat - 'A'.toNat + 10
  else 0

/-- Whether a character is a digit of a base. -/
def isDigitOf (base : Nat) (c : Char) : Bool :=
  (c.isDigit || ('a' ≤ c && c ≤ 'z') || ('A' ≤ c && c ≤ 'Z')) && digitValue c < base

/-- The number that digits of a base stand for. -/
def ofDigits (base : Nat) (digits : List Char) : Nat :=
  digits.foldl (fun n c => base * n + digitValue c) 0

/-- Takes one sign off the front; whether it was a minus, and what follows. -/
def takeSign : List Char → Bool × List Char
  | '-' :: rest => (true, rest)
  | '+' :: rest => (false, rest)
  | cs => (false, cs)

/-- A decimal number as written: `digits * 10 ^ exponent` with a sign. -/
structure Decimal where
  /-- A minus is written in front. -/
  negative : Bool
  /-- All digits, read as one whole number. -/
  digits : Nat
  /-- The power of ten that the last digit counts. -/
  exponent : Int
  deriving DecidableEq, Repr

namespace Decimal

/-- Reads the power of ten at the end of a number; nothing at all stands for zero. -/
def exponent? : List Char → Option Int
  | [] => some 0
  | c :: rest =>
    let (negative, digits) := takeSign rest
    if (c == 'e' || c == 'E') && !digits.isEmpty && digits.all Char.isDigit then
      some (if negative then -(ofDigits 10 digits : Int) else ofDigits 10 digits)
    else none

/-- Reads a decimal number; the whole text has to be one. -/
def read? (cs : List Char) : Option Decimal :=
  let (negative, rest) := takeSign cs
  let whole := rest.takeWhile Char.isDigit
  let (fraction, rest) :=
    match rest.dropWhile Char.isDigit with
    | '.' :: rest => (rest.takeWhile Char.isDigit, rest.dropWhile Char.isDigit)
    | rest => ([], rest)
  if whole.isEmpty && fraction.isEmpty then none
  else
    (exponent? rest).map fun power =>
      ⟨negative, ofDigits 10 (whole ++ fraction), power - fraction.length⟩

/-- The double nearest to a decimal number. -/
def toDouble (d : Decimal) : Double := .ofDecimal d.negative d.digits d.exponent

end Decimal

end Criteria
