import Criteria.Json
import Criteria.Text.Parts
import Criteria.Value

/-!
# Records

A record is anything whose fields can be read by path. What is read is a text, a number or a truth
value; a path that leads nowhere, or to something else, reads as null.

JSON documents are records. Their paths are names with points between them, each the name of a
member of the object before it.
-/

namespace Criteria

/-- What a field of a record holds. -/
inductive FieldValue where
  | text (s : String)
  | number (n : Numeral)
  | bool (b : Bool)
  /-- Missing, null, or without a value of its own. -/
  | null
  deriving DecidableEq

namespace FieldValue

instance : Inhabited FieldValue := ⟨null⟩

/-- Nothing. -/
def isNull : FieldValue → Bool
  | null => true
  | _ => false

/-- The text of a text. -/
def asText? : FieldValue → Option String
  | text s => some s
  | _ => none

/-- The number of a number. -/
def asNumber? : FieldValue → Option Numeral
  | number n => some n
  | _ => none

/-- The truth value of a truth value. -/
def asBool? : FieldValue → Option Bool
  | bool b => some b
  | _ => none

/-- The text form of whatever the field holds; null has none. -/
def text? : FieldValue → Option String
  | text s => some s
  | number n => some n.text
  | bool b => some (Value.boolText b)
  | null => none

/-- A value that may be absent; absence is null. -/
def ofOption (v : Option FieldValue) : FieldValue := v.getD null

/-- Equality of kind and value. Numbers have to agree in their kind, and a double that is not a
number differs from itself. -/
def same : FieldValue → FieldValue → Bool
  | text a, text b => a == b
  | number a, number b => a.same b
  | bool a, bool b => a == b
  | null, null => true
  | _, _ => false

end FieldValue

/-- What can be read by path. -/
class Record (ρ : Type) where
  /-- What the field at a path holds. -/
  fieldValue : ρ → String → FieldValue

/-- A record together with its place among others reads as the record. -/
instance {ρ : Type} [Record ρ] : Record (Nat × ρ) where
  fieldValue r path := Record.fieldValue r.2 path

namespace Json

/-- A JSON value as what a field holds. -/
def toFieldValue : Json → FieldValue
  | text (some s) => .text s
  | bool b => .bool b
  | number (some n) => .number n
  | _ => .null

instance : Record Json where
  fieldValue j path := ((j.at? (Text.parts '.' path)).map toFieldValue).getD .null

/-- A point at the end of a path asks for a member with an empty name. -/
example : Record.fieldValue (object [(some "a", object [(some "", bool true)])]) "a." =
    .bool true := by decide +kernel

end Json

end Criteria
