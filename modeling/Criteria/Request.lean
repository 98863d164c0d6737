import Criteria.Term.Filter
import Criteria.Term.Sort
import Criteria.Number.Decimal
import Criteria.Number.Numeral

/-!
# Requests

A request holds four texts, each of which may be absent. Page and page size are read as the whole
number at the front of their text; what stands behind it does not matter, and a text without one
counts as absent.
-/

namespace Criteria

/-- A request as given. -/
structure Request where
  /-- The filters text. -/
  filters : Option String := none
  /-- The sorts text. -/
  sorts : Option String := none
  /-- The wanted page, as text. -/
  page : Option String := none
  /-- The wanted page size, as text. -/
  pageSize : Option String := none
  deriving DecidableEq, Repr

/-- A request as read. -/
structure ParsedRequest where
  /-- The clauses, all of which have to hold. -/
  filters : List FilterTerm := []
  /-- The sort keys, the most important first. -/
  sorts : List SortTerm := []
  /-- The wanted page. -/
  page : Option Int64 := none
  /-- The wanted page size. -/
  pageSize : Option Int64 := none
  deriving DecidableEq, Repr

/-- The whole number at the front of a text: blanks, at most one sign, and as many digits as there
are. It has to fit into 64 bits. -/
def leadingInt? (s : String) : Option Int64 :=
  let (negative, rest) := takeSign (Text.trimStart s.toList)
  let digits := rest.takeWhile Char.isDigit
  if digits.isEmpty then none
  else
    let n : Int := ofDigits 10 digits
    int64? (if negative then -n else n)

namespace Request

/-- The text of a number that is given as such. Zero counts as absent. -/
def numericText (n : Int64) : Option String :=
  if n == 0 then none else some (Numeral.intText n.toInt)

/-- The text of a double that is given as such. Zero counts as absent, and so does what is no
number. -/
def doubleText (x : Double) : Option String := if x.isZero || x.isNaN then none else some x.text

/-- Reads the four texts. -/
def parse (r : Request) : ParsedRequest :=
  { filters := (r.filters.map FilterTerm.ofFilters).getD []
    sorts := (r.sorts.map SortTerm.ofSorts).getD []
    page := r.page.bind leadingInt?
    pageSize := r.pageSize.bind leadingInt? }

end Request

end Criteria
