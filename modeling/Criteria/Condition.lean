import Criteria.Field
import Criteria.Term.Filter
import Criteria.Number.Numeral

/-!
# Conditions, sort keys and pages

What is handed to the target of a request once its names are resolved: comparisons of one field with
one value, sort keys by path, and the page that is wanted.
-/

namespace Criteria

/-- The comparison of one field with one value. -/
structure Condition where
  /-- The path of the field. -/
  field : String
  /-- What it is compared with. -/
  value : Value
  /-- How it is compared. -/
  operator : Operator
  /-- The answer of a text operator is turned round. -/
  negated : Bool
  /-- Texts are compared by their lowercase. -/
  insensitive : Bool
  /-- A field that is null is not different from a value that is not. -/
  ignoreNulls : Bool
  deriving DecidableEq

/-- One key of an order of records. -/
structure SortSpec where
  /-- The path of the field. -/
  field : String
  /-- From high to low. -/
  descending : Bool
  deriving DecidableEq, Repr

namespace SortSpec

/-- From low to high. -/
def ascendingBy (field : String) : SortSpec := ⟨field, false⟩

/-- From high to low. -/
def descendingBy (field : String) : SortSpec := ⟨field, true⟩

end SortSpec

/-- A page of a list of results. -/
structure Page where
  /-- The number of the page, counted from one. -/
  number : UInt64
  /-- The number of results on every page. -/
  size : UInt64
  deriving DecidableEq, Repr

/-- How many results come before the page. What 64 bits cannot hold is cut off at the greatest
number they can. -/
def Page.offset (p : Page) : UInt64 :=
  (min ((p.number.toNat - 1) * p.size.toNat) (UInt64.size - 1)).toUInt64

namespace Condition

/-- The value that a written one stands for. The word `null` is nothing where equality is asked;
with a backslash in front it is always a text to be read. -/
def readValue (operator : Operator) (reader : Option (String → Value)) (raw : String) : Value :=
  if raw == "null" && operator.isEquality then .null
  else
    let literal := if raw == "\\null" then "null" else raw
    match reader with
    | some read => read literal
    | none => .ofText literal

/-- The condition of a term on a field for one of the term's values. -/
def build (t : FilterTerm) (f : Field) (raw : String) (ignoreNulls : Bool) : Condition :=
  { field := f.path
    value := readValue t.operator f.reader raw
    operator := t.operator
    negated := t.token.negated
    insensitive := t.token.insensitive
    ignoreNulls }

/-- Every other text is read as what it looks like. -/
theorem readValue_of_ne {raw : String} (hnull : raw ≠ "null") (hescaped : raw ≠ "\\null")
    (operator : Operator) : readValue operator none raw = .ofText raw := by
  simp [readValue, hnull, hescaped]

end Condition

end Criteria
