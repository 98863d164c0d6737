import Criteria.Processor
import Criteria.Record.Matching
import Criteria.Record.Ordering

/-!
# Queries on lists of records

A query is built up from groups of conditions, all of which have to be passed, sort keys and a page,
and then run on any list of records: filter, sort, cut out. It is a target for processors.

Sorting is stable: records that are equal under every key keep their order.
-/

namespace Criteria

/-- A query on a list of records. -/
structure Query where
  /-- The groups of conditions. -/
  groups : List (List Condition) := []
  /-- The sort keys, the most important first. -/
  sorts : List SortSpec := []
  /-- The page that is wanted. -/
  page : Option Page := none
  deriving DecidableEq

/-- Puts `x` into a sorted list that is given from its end: behind everything that it does not have
to stand before. -/
def insertBack {α : Type} (before : α → α → Bool) (x : α) : List α → List α
  | [] => [x]
  | y :: rest => if before x y then y :: insertBack before x rest else x :: y :: rest

/-- Sorts a list, inserting one thing after the other. -/
def stableSort {α : Type} (before : α → α → Bool) (xs : List α) : List α :=
  (xs.foldl (fun sorted x => insertBack before x sorted) []).reverse

namespace Query

instance : Inhabited Query := ⟨{}⟩

/-- Adds a group of conditions. -/
def andGroup (q : Query) (group : List Condition) : Query :=
  { q with groups := q.groups ++ [group] }

/-- Adds a sort key behind the others. -/
def orderBy (q : Query) (key : SortSpec) : Query := { q with sorts := q.sorts ++ [key] }

/-- Sets the page. -/
def paginate (q : Query) (page : Page) : Query := { q with page := some page }

variable {ρ : Type} [Record ρ]

/-- Whether a record passes the groups of a query. -/
def accepts (q : Query) (r : ρ) : Bool := matchesGroups r q.groups

/-- The records that pass, in the order of the sort keys. -/
def ordered (q : Query) (records : List ρ) : List ρ :=
  let found := records.filter q.accepts
  if q.sorts.isEmpty then found
  else stableSort (fun a b => compareRecords a b q.sorts == .lt) found

/-- The records of the page. -/
def execute (q : Query) (records : List ρ) : List ρ :=
  match q.page with
  | some page => ((q.ordered records).drop page.offset.toNat).take page.size.toNat
  | none => q.ordered records

/-- How many records pass, on whatever page. -/
def count (q : Query) (records : List ρ) : Nat := records.countP q.accepts

/-- The steps of a processor on a query. None of them fails. -/
def backend : Backend Query where
  applyGroup group := modify fun q => q.andGroup group
  applySorts keys := modify fun q => { q with sorts := q.sorts ++ keys }
  applyPage page := modify fun q => q.paginate page

end Query

/-! ## First facts -/

theorem insertBack_perm {α : Type} (before : α → α → Bool) (x : α) (xs : List α) :
    (insertBack before x xs).Perm (x :: xs) := by
  induction xs with
  | nil => exact .refl _
  | cons y rest ih =>
    unfold insertBack
    split
    · exact (ih.cons y).trans (.swap ..)
    · exact .refl _

/-- Sorting keeps every thing as often as it is there. -/
theorem stableSort_perm {α : Type} (before : α → α → Bool) (xs : List α) :
    (stableSort before xs).Perm xs := by
  have step : ∀ (xs acc : List α),
      (xs.foldl (fun sorted x => insertBack before x sorted) acc).Perm (xs ++ acc) := by
    intro xs
    induction xs with
    | nil => exact fun acc => .refl _
    | cons x rest ih =>
      intro acc
      exact (ih _).trans (((insertBack_perm before x acc).append_left rest).trans
        List.perm_middle)
  exact (List.reverse_perm _).trans (by simpa [stableSort] using step xs [])

namespace Query

/-- The order changes nothing about which records there are. -/
theorem ordered_perm {ρ : Type} [Record ρ] (q : Query) (records : List ρ) :
    (q.ordered records).Perm (records.filter q.accepts) := by
  unfold ordered
  split
  · exact .refl _
  · exact stableSort_perm _ _

theorem length_ordered {ρ : Type} [Record ρ] (q : Query) (records : List ρ) :
    (q.ordered records).length = q.count records := by
  rw [count, List.countP_eq_length_filter]
  exact (q.ordered_perm records).length_eq

/-- A query that asks for nothing returns all records. -/
theorem execute_empty {ρ : Type} [Record ρ] (records : List ρ) :
    ({} : Query).execute records = records := by
  simp [execute, ordered, accepts, matchesGroups]

end Query

end Criteria
