import Criteria.Operator
import Criteria.Text.Escape

/-!
# Where the operator of a clause stands

The operator of a clause is the token at the leftmost place that is not escaped and begins one. It
cuts the clause in three: what stands before it, the token, and what stands behind it.
-/

namespace Criteria

/-- A text cut in three at an operator token. -/
structure Located where
  /-- What stands before the token. -/
  before : List Char
  /-- The token. -/
  token : Token
  /-- What stands behind the token. -/
  after : List Char

namespace Located

/-- Looks for the leftmost unescaped place that begins a token. `before` is what has been passed,
nearest character first. -/
def search : (before : List Char) → List Char → Option Located
  | _, [] => none
  | before, c :: rest =>
    match if Text.escapedBy before then none else Token.atStart? (c :: rest) with
    | some token => some ⟨before.reverse, token, (c :: rest).drop token.chars.length⟩
    | none => search (c :: before) rest

/-- The operator of a text, with what stands around it. -/
def find? (cs : List Char) : Option Located := search [] cs

/-- The place of the token, counted in bytes of UTF-8. -/
def start (l : Located) : Nat := (String.ofList l.before).utf8ByteSize

/-- The place just behind the token, counted in bytes of UTF-8. -/
def stop (l : Located) : Nat := l.start + l.token.text.utf8ByteSize

end Located

end Criteria
