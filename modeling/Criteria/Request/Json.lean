import Criteria.Json.Members
import Criteria.Json.Reader
import Criteria.Request

/-!
# Requests in JSON
-/

namespace Criteria.Request

/-- Page and page size are written as text or as a number. Zero and null count as absent. -/
def pageText? : Option Json → Option (Option String)
  | some (.number (some (.int n))) => some (numericText n)
  | some (.number (some n)) => some (doubleText n.toDouble)
  | j => Json.optionalText? j

/-- The request that a value describes. -/
def ofJson? (j : Json) : Option Request := do
  match ← Json.recordMembers? ["filters", "sorts", "page", "pageSize"] j with
  | [filters, sorts, page, pageSize] =>
    return {
      filters := ← Json.optionalText? filters
      sorts := ← Json.optionalText? sorts
      page := ← pageText? page
      pageSize := ← pageText? pageSize }
  | _ => none

/-- The request that a JSON text describes. -/
def ofJsonText? (s : String) : Option Request := (Json.ofText? s).bind ofJson?

end Criteria.Request
