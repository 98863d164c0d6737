import Criteria.Number.Layout

/-!
# Numbers of records

A record holds a number as a signed or an unsigned 64-bit integer or as a double. Two numbers of one
kind are compared exactly. Numbers of different kinds are compared as doubles, which may round
either of them.
-/

namespace Criteria

/-- A whole number as a signed 64-bit integer, if it is one. -/
def int64? (n : Int) : Option Int64 :=
  if Int64.minValue.toInt ≤ n && n ≤ Int64.maxValue.toInt then some (Int64.ofInt n) else none

/-- A whole number as an unsigned 64-bit integer, if it is one. -/
def uint64? (n : Int) : Option UInt64 :=
  if 0 ≤ n && n < UInt64.size then some (UInt64.ofNat n.toNat) else none

/-- A number read from a record. -/
inductive Numeral where
  /-- A signed 64-bit integer. -/
  | int (n : Int64)
  /-- An unsigned 64-bit integer. -/
  | nat (n : UInt64)
  /-- A double. -/
  | double (x : Double)
  deriving DecidableEq

namespace Numeral

/-- A whole number as an integer, signed if it can be. -/
def ofInt? (n : Int) : Option Numeral := ((int64? n).map int).or ((uint64? n).map nat)

/-- The double nearest to a number. -/
def toDouble : Numeral → Double
  | int n => .ofInt n.toInt
  | nat n => .ofInt n.toNat
  | double x => x

/-- The order of two numbers: exact inside a kind, by doubles across kinds. -/
def compare? : Numeral → Numeral → Option Ordering
  | int a, int b => some (compare a.toInt b.toInt)
  | nat a, nat b => some (compare a.toNat b.toNat)
  | a, b => a.toDouble.compare? b.toDouble

/-- Equality of kind and of value. -/
def same : Numeral → Numeral → Bool
  | int a, int b => a == b
  | nat a, nat b => a == b
  | double a, double b => a.same b
  | _, _ => false

/-- Strictly less, where there is an order. -/
def isLess (a b : Numeral) : Bool := a.compare? b == some .lt

/-- Greater or equal, where there is an order. -/
def isAtLeast (a b : Numeral) : Bool := (a.compare? b).any (· != .lt)

/-- The digits of a whole number, with a minus in front of a negative one. -/
def intText (n : Int) : String :=
  String.ofList ((if n < 0 then ['-'] else []) ++ Layout.digitsOf n.natAbs)

/-- The text of a number: digits without a point for integers, plain text for doubles. -/
def text : Numeral → String
  | int n => intText n.toInt
  | nat n => intText n.toNat
  | double x => x.text

/-- Numbers of different kinds may compare equal although they are not: both are rounded first. -/
example : (int 9007199254740993).compare? (double (.ofInt 9007199254740992)) = some .eq := by
  decide +kernel

end Numeral

end Criteria
