import Criteria.Config
import Criteria.Json.Members
import Criteria.Json.Reader

/-!
# Configurations in JSON

A configuration is a record of options, fields and methods. Fields and methods are maps: objects in
which the last member of a name counts. A field is its path alone or a record of its own; of a
method only the kind of the value matters.
-/

namespace Criteria

/-- The options that a value describes. -/
def Options.ofJson? (j : Json) : Option Options := do
  let names :=
    ["caseSensitive", "defaultPageSize", "maxPageSize", "throwExceptions", "ignoreNullsOnNotEqual"]
  match ← Json.recordMembers? names j with
  | [caseSensitive, defaultPageSize, maxPageSize, throwExceptions, ignoreNulls] =>
    return {
      caseSensitive := ← Json.flag? false caseSensitive
      defaultPageSize := ← Json.integer? 0 defaultPageSize
      maxPageSize := ← Json.integer? 0 maxPageSize
      throwExceptions := ← Json.flag? false throwExceptions
      ignoreNullsOnNotEqual := ← Json.flag? true ignoreNulls }
  | _ => none

/-- The options that a JSON text describes. -/
def Options.ofJsonText? (s : String) : Option Options := (Json.ofText? s).bind ofJson?

/-- The field that a sound value describes. -/
def FieldSetup.ofJson? : Json → Option FieldSetup
  | .text (some location) => some (.path location)
  | j => do
    match ← Json.recordMembers? ["path", "canFilter", "canSort"] j with
    | [location, canFilter, canSort] =>
      return .options (← Json.optionalText? location) (← Json.flag? false canFilter)
        (← Json.flag? false canSort) none
    | _ => none

/-- The kind of a value. What is neither a text nor a number nor a truth value counts as an
object. -/
def Json.kindName : Json → String
  | text _ => "string"
  | number (some n) => if n.toDouble.isFinite then "number" else "object"
  | bool _ => "boolean"
  | _ => "object"

/-- The map that an object describes, each of its values being sound and read by `read?`. -/
def NameMap.ofJson? {α : Type} (levels : Nat) (read? : Json → Option α) : Json → Option (NameMap α)
  | .object members =>
    members.foldlM
      (fun map (name, j) => do
        let name ← name
        if j.isSound levels then return map.insert name (← read? j) else none)
      {}
  | _ => none

namespace Config

/-- The map that a member of a configuration describes; it may be missing. -/
def map? {α : Type} (read? : Json → Option α) : Option Json → Option (NameMap α)
  | none => some {}
  | some j => NameMap.ofJson? (Json.maxLevels - 2) read? j

/-- The options that a member of a configuration describes; it may be missing. -/
def options? : Option Json → Option Options
  | none => some {}
  | some j => Options.ofJson? j

/-- The configuration that a value describes. -/
def ofJson? (j : Json) : Option Config := do
  match ← Json.recordMembers? ["options", "fields", "customFilters", "customSorts"] j with
  | [options, fields, filters, sorts] =>
    return {
      options := ← options? options
      fields := ← map? FieldSetup.ofJson? fields
      filters := ← map? (some ∘ Json.kindName) filters
      sorts := ← map? (some ∘ Json.kindName) sorts }
  | _ => none

/-- The configuration that a JSON text describes. -/
def ofJsonText? (s : String) : Option Config := (Json.ofText? s).bind ofJson?

/-- The fields that a JSON text describes by name. -/
def fieldsOfJsonText? (s : String) : Option (NameMap FieldSetup) :=
  (Json.ofText? s).bind (NameMap.ofJson? (Json.maxLevels - 1) FieldSetup.ofJson?)

end Config

end Criteria
