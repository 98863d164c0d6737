import Criteria.Config
import Criteria.Processor

/-!
# Building a processor

A processor is built in layers. What is said at run time is stronger than what a configuration says,
and that is stronger than the defaults. Inside a layer, what is said last counts.
-/

namespace Criteria

/-- A processor that is being built. -/
structure Builder (Q C : Type) where
  /-- The steps on the target. -/
  backend : Backend Q
  /-- The configuration that was given last. -/
  config : Option Config := none
  /-- The options that were set. -/
  overrides : OptionOverrides := {}
  /-- The fields that were given. -/
  fields : FieldTable := {}
  /-- The custom filters that were given. -/
  filters : Registry (FilterMethod Q C) := {}
  /-- The custom sorts that were given. -/
  sorts : Registry (SortMethod Q C) := {}

namespace Builder

variable {Q C : Type}

/-- Takes a configuration in the place of any earlier one. -/
def withConfig (b : Builder Q C) (c : Config) : Builder Q C := { b with config := some c }

/-- Sets all options. -/
def withOptions (b : Builder Q C) (o : Options) : Builder Q C := { b with overrides := .all o }

/-- Sets how names are compared. -/
def caseSensitive (b : Builder Q C) (on : Bool) : Builder Q C :=
  { b with overrides.caseSensitive := some on }

/-- Sets the page size for requests that have none. -/
def defaultPageSize (b : Builder Q C) (size : Int64) : Builder Q C :=
  { b with overrides.defaultPageSize := some size }

/-- Sets the greatest page size. -/
def maxPageSize (b : Builder Q C) (size : Int64) : Builder Q C :=
  { b with overrides.maxPageSize := some size }

/-- Sets whether failures are reported. -/
def throwExceptions (b : Builder Q C) (on : Bool) : Builder Q C :=
  { b with overrides.throwExceptions := some on }

/-- Sets whether a null field is never different from a value. -/
def ignoreNulls (b : Builder Q C) (on : Bool) : Builder Q C :=
  { b with overrides.ignoreNullsOnNotEqual := some on }

/-- Gives one field. -/
def withField (b : Builder Q C) (f : Field) : Builder Q C := { b with fields := b.fields.insert f }

/-- Gives the fields of a table. -/
def withFields (b : Builder Q C) (t : FieldTable) : Builder Q C :=
  { b with fields := b.fields.insertAll t }

/-- Gives a custom filter. -/
def withFilter (b : Builder Q C) (name : String) (method : FilterMethod Q C) : Builder Q C :=
  { b with filters := b.filters.insert name method }

/-- Gives a custom sort. -/
def withSort (b : Builder Q C) (name : String) (method : SortMethod Q C) : Builder Q C :=
  { b with sorts := b.sorts.insert name method }

/-- Names a custom filter without code. -/
def declareFilter (b : Builder Q C) (name kind : String) : Builder Q C :=
  { b with filters := b.filters.declare name kind }

/-- Names a custom sort without code. -/
def declareSort (b : Builder Q C) (name kind : String) : Builder Q C :=
  { b with sorts := b.sorts.declare name kind }

/-- Puts the layers together. Of fields with the same name the first stays. -/
def build (b : Builder Q C) : Processor Q C :=
  let c := b.config.getD {}
  let options := b.overrides.onto c.options
  let cs := options.caseSensitive
  { options
    backend := b.backend
    fields := ((b.fields.fill c.fieldTable cs).distinct cs).1
    filters := b.filters.fill (.ofDeclared c.filters.toList) cs
    sorts := b.sorts.fill (.ofDeclared c.sorts.toList) cs }

end Builder

end Criteria
