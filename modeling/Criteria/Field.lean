import Criteria.Name
import Criteria.Value

/-!
# Fields

A field is what the names of a request stand for: a public name, the path under which the records
store it, and leave to filter or to sort by it. A field may read the values it is compared with in
its own way.
-/

namespace Criteria

/-- What a name is looked up for. -/
inductive Capability where
  /-- To filter by the field. -/
  | filter
  /-- To sort by the field. -/
  | sort
  deriving DecidableEq, Repr

/-- A declared field. -/
structure Field where
  /-- The name in requests. -/
  name : String
  /-- The path in records. -/
  path : String
  /-- Filters may name it. -/
  canFilter : Bool
  /-- Sorts may name it. -/
  canSort : Bool
  /-- Its own way to read a value. -/
  reader : Option (String → Value)

/-- Whether a field may be used in a given way. -/
def Field.allows (f : Field) : Capability → Bool
  | .filter => f.canFilter
  | .sort => f.canSort

/-- A declaration of a field apart from its name. -/
inductive FieldSetup where
  /-- A path alone: the field may be used in both ways. -/
  | path (path : String)
  /-- Everything said; the path is the name if there is none. -/
  | options (path : Option String) (canFilter canSort : Bool) (reader : Option (String → Value))

/-- The field that a declaration gives a name to. -/
def FieldSetup.toField (name : String) : FieldSetup → Field
  | path p => ⟨name, p, true, true, none⟩
  | options p canFilter canSort reader => ⟨name, p.getD name, canFilter, canSort, reader⟩

/-- The declared fields, in order. -/
structure FieldTable where
  /-- The fields. -/
  fields : List Field := []

namespace FieldTable

instance : Inhabited FieldTable := ⟨{}⟩

/-- How many fields there are. -/
def size (t : FieldTable) : Nat := t.fields.length

/-- The fields of named declarations, in the order given and with all repetitions. -/
def ofEntries (entries : List (String × FieldSetup)) : FieldTable :=
  ⟨entries.map fun (name, setup) => setup.toField name⟩

/-- Puts a field in the place of the one with exactly its name, or at the end. -/
def insert (t : FieldTable) (f : Field) : FieldTable := ⟨Named.put Field.name f t.fields⟩

/-- Inserts the fields of another table one by one. -/
def insertAll (t other : FieldTable) : FieldTable := other.fields.foldl insert t

/-- Adds the fields of a weaker table whose name is not taken. -/
def fill (t : FieldTable) (weaker : FieldTable) (caseSensitive : Bool) : FieldTable :=
  ⟨Named.fill Field.name caseSensitive t.fields weaker.fields⟩

/-- The first field of a name that allows a use. A field of that name that does not allow it is
passed over. -/
def find? (t : FieldTable) (name : String) (use : Capability) (caseSensitive : Bool) :
    Option Field :=
  t.fields.find? fun f => namesAgree caseSensitive f.name name && f.allows use

/-- Keeps the first field of every name; also the names of the fields that go. -/
def distinct (t : FieldTable) (caseSensitive : Bool) : FieldTable × List String :=
  let (kept, dropped) := Named.distinct Field.name caseSensitive t.fields
  (⟨kept⟩, dropped.map Field.name)

/-- What is found has the name and allows the use. -/
theorem find?_some {t : FieldTable} {name : String} {use : Capability} {caseSensitive : Bool}
    {f : Field} (h : t.find? name use caseSensitive = some f) :
    namesAgree caseSensitive f.name name = true ∧ f.allows use = true := by
  simpa using List.find?_some h

theorem mem_of_find? {t : FieldTable} {name : String} {use : Capability} {caseSensitive : Bool}
    {f : Field} (h : t.find? name use caseSensitive = some f) : f ∈ t.fields :=
  List.mem_of_find?_eq_some h

end FieldTable

end Criteria
