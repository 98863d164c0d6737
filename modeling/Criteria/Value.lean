import Criteria.Number.Decimal
import Criteria.Number.Layout

/-!
# Values of conditions

What a field is compared with: nothing, a truth value, a number or a text.

A value is written as text. Unless the field has a reader of its own, the text is taken for what it
looks like: `true` and `false` are truth values, a finite number is a number, and everything else is
text, unchanged. A number is a decimal, or a whole number below `2 ^ 64` with one of the marks of
base sixteen, eight or two in front.
-/

namespace Criteria

/-- What a field is compared with. -/
inductive Value where
  | null
  | bool (b : Bool)
  | number (x : Double)
  | text (s : String)
  deriving DecidableEq

namespace Value

instance : Inhabited Value := ⟨null⟩

/-- Nothing. -/
def isNull : Value → Bool
  | null => true
  | _ => false

/-- The text of a text. -/
def asText? : Value → Option String
  | text s => some s
  | _ => none

/-- The number of a number. -/
def asNumber? : Value → Option Double
  | number x => some x
  | _ => none

/-- The truth value of a truth value. -/
def asBool? : Value → Option Bool
  | bool b => some b
  | _ => none

/-- The name of the kind of a value. -/
def kindName : Value → String
  | null => "null"
  | bool _ => "boolean"
  | number _ => "number"
  | text _ => "string"

/-- The word for a truth value. -/
def boolText (b : Bool) : String := if b then "true" else "false"

/-- The text by which a value is shown. -/
def display : Value → String
  | null => "null"
  | bool b => boolText b
  | number x => x.text
  | text s => s

/-- A value that may be absent; absence is null. -/
def ofOption (v : Option Value) : Value := v.getD null

/-! ## Reading a value -/

/-- The base that a text starts with the mark of, and what stands behind the mark. -/
def basePart? : List Char → Option (Nat × List Char)
  | '0' :: 'x' :: rest | '0' :: 'X' :: rest => some (16, rest)
  | '0' :: 'o' :: rest | '0' :: 'O' :: rest => some (8, rest)
  | '0' :: 'b' :: rest | '0' :: 'B' :: rest => some (2, rest)
  | _ => none

/-- The number that a text reads as, if it does. A text with the mark of a base is read in that base
or not at all. -/
def number? (cs : List Char) : Option Double :=
  match basePart? cs with
  | some (base, digits) =>
    if !digits.isEmpty && digits.all (isDigitOf base) && ofDigits base digits < UInt64.size then
      some (.ofInt (ofDigits base digits))
    else none
  | none => ((Decimal.read? cs).map Decimal.toDouble).filter Double.isFinite

/-- What a text looks like. -/
def ofText (s : String) : Value :=
  if s = "true" then bool true
  else if s = "false" then bool false
  else
    match number? s.toList with
    | some x => number x
    | none => text s

end Value

end Criteria
