import Criteria.Condition
import Criteria.Json

/-!
# Writing JSON texts

A value is written without any blanks, the members of an object in their order. In a string only the
quotation mark, the backslash and the characters below U+0020 are escaped, by a letter where there
is one.
-/

namespace Criteria.Json

/-- One digit of base sixteen. -/
def hexDigit (n : Nat) : Char := Nat.digitChar n

/-- A character inside a string. -/
def charText (c : Char) : List Char :=
  match c with
  | '"' => ['\\', '"']
  | '\\' => ['\\', '\\']
  | '\x08' => ['\\', 'b']
  | '\x0c' => ['\\', 'f']
  | '\n' => ['\\', 'n']
  | '\r' => ['\\', 'r']
  | '\t' => ['\\', 't']
  | c =>
    if c.toNat < 0x20 then ['\\', 'u', '0', '0', hexDigit (c.toNat / 16), hexDigit (c.toNat % 16)]
    else [c]

/-- A string with its quotation marks. -/
def stringText (s : String) : String := String.ofList ('"' :: s.toList.flatMap charText ++ ['"'])

/-- A number. What is not finite has no form in JSON and becomes null. -/
def numberText : Numeral → String
  | .double x => Layout.json.text x
  | n => n.text

mutual

/-- The text of a value. A leaf that stands for nothing becomes null. -/
def render : Json → String
  | null => "null"
  | bool b => Value.boolText b
  | number n => (n.map numberText).getD "null"
  | text s => (s.map stringText).getD "null"
  | array items => "[" ++ ",".intercalate (renderItems items) ++ "]"
  | object members => "\x7b" ++ ",".intercalate (renderMembers members) ++ "\x7d"

/-- The texts of the items of an array. -/
def renderItems : List Json → List String
  | [] => []
  | item :: rest => render item :: renderItems rest

/-- The texts of the members of an object. -/
def renderMembers : List (Option String × Json) → List String
  | [] => []
  | (name, value) :: rest =>
    (stringText (name.getD "") ++ ":" ++ render value) :: renderMembers rest

end

/-- A string as a value. -/
def ofString (s : String) : Json := text (some s)

/-- An object with the given members. -/
def record (members : List (String × Json)) : Json :=
  object (members.map fun (name, value) => (some name, value))

end Criteria.Json

namespace Criteria

/-- A value of a condition in JSON. -/
def Value.toJson : Value → Json
  | null => .null
  | bool b => .bool b
  | number x => .number (some (.double x))
  | text s => .ofString s

/-- A page in JSON. -/
def Page.toJson (p : Page) : Json :=
  .record [("page", .number (some (.nat p.number))), ("pageSize", .number (some (.nat p.size)))]

/-- A condition in JSON. -/
def Condition.toJson (c : Condition) : Json :=
  .record
    [("field", .ofString c.field), ("value", c.value.toJson),
      ("parsedOperator", .ofString c.operator.name), ("operatorIsNegated", .bool c.negated),
      ("operatorIsCaseInsensitive", .bool c.insensitive),
      ("ignoreNullsOnNotEqual", .bool c.ignoreNulls)]

end Criteria
