/-!
# Operators and their tokens

A comparison has one of nine operators. It is written as a token: a text operator may carry a `!` in
front, which negates it, and an equality or text operator a `*` behind, which makes it ignore case.
The twenty tokens stand in one table, and the table's order decides which token is read where
several would fit; no token follows one that it begins with, so the longest always wins.
-/

namespace Criteria

/-- What a comparison asks of a field. -/
inductive Operator where
  | equals
  | notEquals
  | greaterThan
  | lessThan
  | greaterThanOrEqual
  | lessThanOrEqual
  | contains
  | startsWith
  | endsWith
  deriving DecidableEq, Repr

namespace Operator

/-- The name under which an operator is reported. -/
def name : Operator → String
  | equals => "equals"
  | notEquals => "notEquals"
  | greaterThan => "greaterThan"
  | lessThan => "lessThan"
  | greaterThanOrEqual => "greaterThanOrEqual"
  | lessThanOrEqual => "lessThanOrEqual"
  | contains => "contains"
  | startsWith => "startsWith"
  | endsWith => "endsWith"

/-- Equality and its negation. -/
def isEquality : Operator → Bool
  | equals | notEquals => true
  | _ => false

/-- The four operators that ask for an order. -/
def isOrdering : Operator → Bool
  | greaterThan | lessThan | greaterThanOrEqual | lessThanOrEqual => true
  | _ => false

/-- The three operators that look into the text of a value. -/
def isTextual : Operator → Bool
  | contains | startsWith | endsWith => true
  | _ => false

/-- The sign of an operator, without the marks of a token. -/
def sign : Operator → String
  | equals => "=="
  | notEquals => "!="
  | greaterThan => ">"
  | lessThan => "<"
  | greaterThanOrEqual => ">="
  | lessThanOrEqual => "<="
  | contains => "@="
  | startsWith => "_="
  | endsWith => "_-="

/-- All operators. -/
def all : List Operator :=
  [equals, notEquals, greaterThan, lessThan, greaterThanOrEqual, lessThanOrEqual, contains,
    startsWith, endsWith]

/-- Drops one `*` at the end, if there is one. -/
def dropStar (cs : List Char) : List Char := if cs.getLast? = some '*' then cs.dropLast else cs

/-- Reads the operator off a token. One `*` at the end is ignored, and so is a `!` in front of a
text operator; any other text has no operator. A `*` is ignored also behind the signs that no token
of the table joins it to. -/
def ofText? (text : String) : Option Operator :=
  let sign := String.ofList (dropStar text.toList)
  all.find? fun op => sign == op.sign || (op.isTextual && sign == "!" ++ op.sign)

end Operator

/-- An operator together with the marks it is written with. -/
structure Token where
  /-- What the comparison asks. -/
  operator : Operator
  /-- A `!` is written in front; only text operators take one. -/
  negated : Bool
  /-- A `*` is written behind. -/
  insensitive : Bool
  deriving DecidableEq, Repr

namespace Token

/-- The token as it is written. -/
def text (t : Token) : String :=
  (if t.negated then "!" else "") ++ t.operator.sign ++ (if t.insensitive then "*" else "")

/-- The characters of a token. -/
def chars (t : Token) : List Char := t.text.toList

/-- The tokens of the language, in the order in which they are tried. -/
def table : List Token :=
  [⟨.contains, true, true⟩, ⟨.startsWith, true, true⟩, ⟨.endsWith, true, true⟩,
    ⟨.notEquals, false, true⟩, ⟨.contains, true, false⟩, ⟨.startsWith, true, false⟩,
    ⟨.endsWith, true, false⟩, ⟨.equals, false, true⟩, ⟨.contains, false, true⟩,
    ⟨.startsWith, false, true⟩, ⟨.endsWith, false, true⟩, ⟨.equals, false, false⟩,
    ⟨.notEquals, false, false⟩, ⟨.greaterThanOrEqual, false, false⟩,
    ⟨.lessThanOrEqual, false, false⟩, ⟨.greaterThan, false, false⟩, ⟨.lessThan, false, false⟩,
    ⟨.contains, false, false⟩, ⟨.startsWith, false, false⟩, ⟨.endsWith, false, false⟩]

/-- The first token of the table that a text begins with. -/
def atStart? (cs : List Char) : Option Token := table.find? fun t => t.chars.isPrefixOf cs

/-- The table is written with twenty different tokens. -/
example : table.map text =
    ["!@=*", "!_=*", "!_-=*", "!=*", "!@=", "!_=", "!_-=", "==*", "@=*", "_=*", "_-=*", "==", "!=",
      ">=", "<=", ">", "<", "@=", "_=", "_-="] := by decide +kernel

/-- A token of the table is read back as its operator. -/
theorem ofText?_text : ∀ t ∈ table, Operator.ofText? t.text = some t.operator := by
  decide +kernel

end Token

end Criteria
