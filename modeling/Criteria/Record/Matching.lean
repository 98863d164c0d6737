import Criteria.Condition
import Criteria.Record

/-!
# Which records match

A condition compares what a field holds with a value.

* Equality asks for the same value. A field that holds a text is equal to a value that is shown by
  that text, whatever the kind of the value.
* Inequality is its negation, but a null field differs from a value only if the condition does not
  ignore nulls.
* The four orders need two numbers or two texts.
* The text operators look into the text of what the field holds, whatever its kind; null on either
  side never matches, negated or not.
-/

namespace Criteria

/-- A text in the form in which it is compared. -/
def foldCase (insensitive : Bool) (s : String) : String :=
  if insensitive then Text.lowercase s else s

/-- Whether a sequence of characters occurs in another. -/
def occursIn (needle : List Char) : List Char → Bool
  | [] => needle.isEmpty
  | c :: rest => needle.isPrefixOf (c :: rest) || occursIn needle rest

/-- The text by which a value is looked for; null has none. -/
def Value.text? : Value → Option String
  | null => none
  | v => some v.display

namespace FieldValue

/-- Equality of what a field holds and a value. -/
def equals (insensitive : Bool) : FieldValue → Value → Bool
  | null, .null => true
  | null, _ | _, .null => false
  | number a, .number b => a.compare? (.double b) == some .eq
  | bool a, .bool b => a == b
  | text s, v => v.text?.any fun t => foldCase insensitive s == foldCase insensitive t
  | _, _ => false

/-- The order of what a field holds and a value: two numbers or two texts. -/
def order? (insensitive : Bool) : FieldValue → Value → Option Ordering
  | number a, .number b => a.compare? (.double b)
  | text a, .text b => some (compare (foldCase insensitive a) (foldCase insensitive b))
  | _, _ => none

end FieldValue

namespace Condition

/-- What a text operator asks of a text. -/
def findsText (operator : Operator) (needle text : List Char) : Bool :=
  match operator with
  | .startsWith => needle.isPrefixOf text
  | .endsWith => needle.isSuffixOf text
  | _ => occursIn needle text

/-- The text operators. -/
def holdsForText (c : Condition) (v : FieldValue) : Bool :=
  match v.text?, c.value.text? with
  | some text, some needle =>
    findsText c.operator (foldCase c.insensitive needle).toList (foldCase c.insensitive text).toList
      != c.negated
  | _, _ => false

/-- Whether a condition holds for what its field holds. -/
def holds (c : Condition) (v : FieldValue) : Bool :=
  match c.operator with
  | .equals => v.equals c.insensitive c.value
  | .notEquals =>
    if c.value.isNull then !v.isNull
    else if v.isNull then !c.ignoreNulls
    else !v.equals c.insensitive c.value
  | .greaterThan => v.order? c.insensitive c.value == some .gt
  | .lessThan => v.order? c.insensitive c.value == some .lt
  | .greaterThanOrEqual => (v.order? c.insensitive c.value).any (· != .lt)
  | .lessThanOrEqual => (v.order? c.insensitive c.value).any (· != .gt)
  | .contains | .startsWith | .endsWith => c.holdsForText v

/-- Whether a record meets a condition. -/
def holdsFor {ρ : Type} [Record ρ] (c : Condition) (r : ρ) : Bool :=
  c.holds (Record.fieldValue r c.field)

end Condition

/-- Whether a record meets some condition of a group. A group without conditions asks for
nothing. -/
def matchesGroup {ρ : Type} [Record ρ] (r : ρ) (group : List Condition) : Bool :=
  group.isEmpty || group.any fun c => c.holdsFor r

/-- Whether a record passes all groups. -/
def matchesGroups {ρ : Type} [Record ρ] (r : ρ) (groups : List (List Condition)) : Bool :=
  groups.all fun group => matchesGroup r group

end Criteria
