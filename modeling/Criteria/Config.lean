import Std.Data.TreeMap
import Criteria.Field
import Criteria.Options

/-!
# Configurations

What a configuration file says: options, fields, and the names of methods, for which it can give no
code. Whatever stands behind such a name, only its kind is kept. Names are kept in their own order,
that of their characters.
-/

namespace Criteria

/-- A map from names, in the order of the names. -/
abbrev NameMap (α : Type) := Std.TreeMap String α

/-- A configuration. -/
structure Config where
  /-- The options. -/
  options : Options := {}
  /-- The fields by name. -/
  fields : NameMap FieldSetup := {}
  /-- The custom filters by name, with the kind of what stands for them. -/
  filters : NameMap String := {}
  /-- The custom sorts by name, with the kind of what stands for them. -/
  sorts : NameMap String := {}

namespace Config

instance : Inhabited Config := ⟨{}⟩

/-- The fields as a table, in the order of their names. -/
def fieldTable (c : Config) : FieldTable := .ofEntries c.fields.toList

end Config

end Criteria
