import Criteria.Operator.Location

/-!
# Filter terms

A filters text is a list of clauses with commas between them, all of which have to hold. A clause
names fields, compares them by one operator, and gives values:

    clause := [ "(" name ("|" name)* ")" | name ] operator value ("|" value)*

It holds when some named field compares as asked with some value. A clause without an operator is
passed over in silence.
-/

namespace Criteria

/-- A clause as read. -/
structure FilterTerm where
  /-- The clause, trimmed. -/
  raw : String
  /-- The names to the left of the operator. -/
  names : List String
  /-- The values to the right of the operator, with their escapes undone. -/
  values : List String
  /-- The operator as written. -/
  token : Token
  deriving DecidableEq, Repr

namespace FilterTerm

/-- What the clause asks of a field. -/
def operator (t : FilterTerm) : Operator := t.token.operator

/-- The names without the pair of parentheses around them; a single parenthesis stays. -/
def openNames : List Char → List Char
  | '(' :: rest => if rest.getLast? = some ')' then rest.dropLast else '(' :: rest
  | cs => cs

/-- Undoes the escapes of operator tokens, one token after the other in the order of the table. -/
def unescapeTokens (cs : List Char) : List Char :=
  Token.table.foldl (fun text token => Text.unescape token.chars text) cs

/-- The text that a written value stands for. -/
def decodeValue (cs : List Char) : List Char := Text.unescapeBars (unescapeTokens cs)

/-- The term of a clause, given in characters. -/
def ofChars? (clause : List Char) : Option FilterTerm :=
  let clause := Text.trim clause
  (Located.find? clause).map fun found =>
    { raw := String.ofList clause
      names := (Text.splitChars '|' (openNames (Text.trim found.before))).map String.ofList
      values := (Text.splitChars '|' (Text.trim found.after)).map fun value =>
        String.ofList (decodeValue value)
      token := found.token }

/-- The term of a clause, if it has an operator. -/
def ofClause? (clause : String) : Option FilterTerm := ofChars? clause.toList

/-- The terms of a filters text. The commas that are escaped in it are plain ones inside a
clause. -/
def ofFilters (filters : String) : List FilterTerm :=
  (Text.splitChars ',' filters.toList).filterMap fun clause => ofChars? (Text.unescape [','] clause)

end FilterTerm

end Criteria
