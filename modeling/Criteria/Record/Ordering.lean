import Criteria.Condition
import Criteria.Record

/-!
# The order of records

Values of one kind are ordered as such, and null stands behind all others. For sorting, values of
different kinds are ordered by their kind, and what is not a number stands behind all numbers.

Records are compared key by key. A key may ask for descending order, but null stays last.
-/

namespace Criteria

namespace FieldValue

/-- The order of two values of one kind, or of a value and null; none for different kinds and for
what is not a number. -/
def compare? : FieldValue → FieldValue → Option Ordering
  | text a, text b => some (compare a b)
  | number a, number b => a.compare? b
  | bool a, bool b => some (compare a b)
  | null, null => some .eq
  | null, _ => some .gt
  | _, null => some .lt
  | _, _ => none

/-- The place of a kind among the others. -/
def kindRank : FieldValue → Nat
  | bool _ => 0
  | number _ => 1
  | text _ => 2
  | null => 3

/-- The order of two values where neither has an order of its own. -/
def compareKinds : FieldValue → FieldValue → Ordering
  | number a, number b => compare a.toDouble.isNaN b.toDouble.isNaN
  | a, b => compare a.kindRank b.kindRank

/-- The order of any two values. -/
def compareTotal (a b : FieldValue) : Ordering := (a.compare? b).getD (compareKinds a b)

/-- The order of two values under a sort key. -/
def compareBy (descending : Bool) (a b : FieldValue) : Ordering :=
  if descending && !a.isNull && !b.isNull then (compareTotal a b).swap else compareTotal a b

end FieldValue

/-- The order of two records under sort keys; a later key counts where the earlier ones are
equal. -/
def compareRecords {ρ : Type} [Record ρ] (a b : ρ) : List SortSpec → Ordering
  | [] => .eq
  | key :: rest =>
    (FieldValue.compareBy key.descending (Record.fieldValue a key.field)
      (Record.fieldValue b key.field)).then (compareRecords a b rest)

/-! ## First facts -/

namespace FieldValue

/-- Null stands behind every other value. -/
theorem compareTotal_null {b : FieldValue} (h : b ≠ null) : compareTotal null b = .gt := by
  cases b with
  | null => exact absurd rfl h
  | _ => rfl

/-- Null stays behind every other value in descending order. -/
theorem compareBy_null (descending : Bool) {b : FieldValue} (h : b ≠ null) :
    compareBy descending null b = .gt := by
  simpa [compareBy, isNull] using compareTotal_null h

end FieldValue

end Criteria
