import Criteria.Config.Json
import Criteria.Yaml.Reader

/-!
# Configurations in YAML

A configuration reads as in JSON, with these differences. Options and maps may be left empty. A
record is a map, except that a field may also be a list of its members. A truth value or an integer
is a plain scalar of that form; the names in a map are the texts of scalars in whatever form. Inside
a field an integer without a minus sign stands for the member in that place.
-/

namespace Criteria

namespace Yaml

/-- The entries of a map; nothing at all is an empty map. -/
def entries? : Yaml → Option (List (Yaml × Yaml))
  | map entries => some entries
  | scalar true s => if s.isEmpty then some [] else none
  | _ => none

/-- The entries of a map by the texts of their keys. -/
def namedEntries? (y : Yaml) : Option (List (String × Yaml)) := do
  (← entries? y).mapM fun (key, value) => return (← key.scalarText?, value)

/-- The members of a record in their fixed order; no member may stand there twice. -/
def recordMembers? {α : Type} (names : List String) (members : List (String × α)) :
    Option (List (Option α)) :=
  names.mapM fun name =>
    match members.filter (·.1 == name) with
    | [] => some none
    | [(_, y)] => some (some y)
    | _ => none

/-- A truth value that may be missing. -/
def flag? (default : Bool) : Option Yaml → Option Bool
  | none => some default
  | some (scalar true s) => bool? s
  | _ => none

/-- A signed 64-bit integer that may be missing. -/
def integerMember? (default : Int64) : Option Yaml → Option Int64
  | none => some default
  | some y =>
    match y.shape with
    | .number (some (.int n)) => some n
    | _ => none

end Yaml

/-- The options that a node describes. -/
def Options.ofYaml? (y : Yaml) : Option Options := do
  let names :=
    ["caseSensitive", "defaultPageSize", "maxPageSize", "throwExceptions", "ignoreNullsOnNotEqual"]
  match ← Yaml.recordMembers? names (← y.namedEntries?) with
  | [caseSensitive, defaultPageSize, maxPageSize, throwExceptions, ignoreNulls] =>
    return {
      caseSensitive := ← Yaml.flag? false caseSensitive
      defaultPageSize := ← Yaml.integerMember? 0 defaultPageSize
      maxPageSize := ← Yaml.integerMember? 0 maxPageSize
      throwExceptions := ← Yaml.flag? false throwExceptions
      ignoreNullsOnNotEqual := ← Yaml.flag? true ignoreNulls }
  | _ => none

namespace FieldSetup

/-- The members of a field that are given by name or by place. -/
def memberNames : List String := ["path", "canFilter", "canSort"]

/-- The member that a key names. -/
def memberName? (key : Yaml) : Option String :=
  match key.shape with
  | .text (some s) => some s
  | .number (some (.int n)) =>
    if key.scalarText?.any fun s => (takeSign s.toList).1 then none
    else some (memberNames.getD n.toInt.toNat "")
  | .number (some (.nat _)) => some ""
  | _ => none

/-- The field that a sound node describes. -/
def ofYaml? (y : Yaml) : Option FieldSetup :=
  match y.shape, y with
  | .text (some location), _ => some (.path location)
  | _, .map entries => do
    let members ← entries.mapM fun (key, value) => return (some (← memberName? key), value.shape)
    ofJson? (.object members)
  | _, .list items => ofJson? (.array (items.map Yaml.shape))
  | _, _ => none

end FieldSetup

namespace Config

/-- The map that a member of a configuration describes; it may be missing. The values have to be
sound; `scalarKeys` says what they may have as keys. -/
def mapOfYaml? {α : Type} (scalarKeys : Bool) (read? : Yaml → Option α) :
    Option Yaml → Option (NameMap α)
  | none => some {}
  | some y => do
    (← y.namedEntries?).foldlM
      (fun map (name, value) => do
        if value.isSound scalarKeys (Yaml.maxLevels - 2) then return map.insert name (← read? value)
        else none)
      {}

/-- The options that a member of a configuration describes; it may be missing. -/
def optionsOfYaml? : Option Yaml → Option Options
  | none => some {}
  | some y => Options.ofYaml? y

/-- The configuration that a document describes. -/
def ofYaml? (y : Yaml) : Option Config := do
  let names := ["options", "fields", "customFilters", "customSorts"]
  match ← Yaml.recordMembers? names (← y.namedEntries?) with
  | [options, fields, filters, sorts] =>
    return {
      options := ← optionsOfYaml? options
      fields := ← mapOfYaml? false FieldSetup.ofYaml? fields
      filters := ← mapOfYaml? true (some ∘ Json.kindName ∘ Yaml.shape) filters
      sorts := ← mapOfYaml? true (some ∘ Json.kindName ∘ Yaml.shape) sorts }
  | _ => none

/-- The configuration that a YAML text describes. -/
def ofYamlText? (s : String) : Option Config := (Yaml.ofText? s).bind ofYaml?

end Config

end Criteria
