/-!
# Options of a processor, and of one run
-/

namespace Criteria

/-- How a processor resolves names, pages results and treats failures. -/
structure Options where
  /-- Names are looked up as exact text. -/
  caseSensitive : Bool := false
  /-- The page size when the request has none. -/
  defaultPageSize : Int64 := 0
  /-- The greatest page size; none if it is not positive. -/
  maxPageSize : Int64 := 0
  /-- Failures are reported, and unknown names are failures. -/
  throwExceptions : Bool := false
  /-- A null field never differs from a value. -/
  ignoreNullsOnNotEqual : Bool := true
  deriving DecidableEq, Repr

/-- Options that were set one by one. -/
structure OptionOverrides where
  caseSensitive : Option Bool := none
  defaultPageSize : Option Int64 := none
  maxPageSize : Option Int64 := none
  throwExceptions : Option Bool := none
  ignoreNullsOnNotEqual : Option Bool := none
  deriving DecidableEq, Repr

namespace OptionOverrides

/-- All options set at once. -/
def all (o : Options) : OptionOverrides :=
  { caseSensitive := some o.caseSensitive
    defaultPageSize := some o.defaultPageSize
    maxPageSize := some o.maxPageSize
    throwExceptions := some o.throwExceptions
    ignoreNullsOnNotEqual := some o.ignoreNullsOnNotEqual }

/-- The options that were set, and those of `base` for the others. -/
def onto (set : OptionOverrides) (base : Options) : Options :=
  { caseSensitive := set.caseSensitive.getD base.caseSensitive
    defaultPageSize := set.defaultPageSize.getD base.defaultPageSize
    maxPageSize := set.maxPageSize.getD base.maxPageSize
    throwExceptions := set.throwExceptions.getD base.throwExceptions
    ignoreNullsOnNotEqual := set.ignoreNullsOnNotEqual.getD base.ignoreNullsOnNotEqual }

end OptionOverrides

/-- What is done in one run, and what is passed to the methods it calls. -/
structure Phases (C : Type) where
  /-- Filter. -/
  filtering : Bool := true
  /-- Sort. -/
  sorting : Bool := true
  /-- Cut out the page. -/
  pagination : Bool := true
  /-- The context of this run. -/
  context : Option C := none

end Criteria
