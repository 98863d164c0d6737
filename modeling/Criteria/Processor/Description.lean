import Criteria.Processor

/-!
# Descriptions for people who look for faults

One line that shows how a processor, its fields or its methods are set up. Code is shown as two
dots.
-/

namespace Criteria.Description

/-- One character inside quotation marks. -/
def quotedChar (c : Char) : String :=
  match c with
  | '"' => "\\\""
  | '\\' => "\\\\"
  | '\n' => "\\n"
  | '\r' => "\\r"
  | '\t' => "\\t"
  | '\x00' => "\\0"
  | c =>
    if c.toNat < 0x20 || c.toNat == 0x7f then
      "\\u\x7b" ++ String.ofList (Nat.toDigits 16 c.toNat) ++ "\x7d"
    else c.toString

/-- A text in quotation marks. -/
def quoted (s : String) : String := "\"" ++ String.join (s.toList.map quotedChar) ++ "\""

/-- The members of a record or the entries of a map, in braces with commas between them. -/
def braced (items : List String) : String := "\x7b" ++ ", ".intercalate items ++ "\x7d"

/-- A record: its name and its members. -/
def record (name : String) (members : List (String × String)) : String :=
  name ++ " \x7b " ++ ", ".intercalate (members.map fun (key, text) => key ++ ": " ++ text) ++
    " \x7d"

/-- The options. -/
def options (o : Options) : String :=
  record "SieveOptions"
    [("case_sensitive", Value.boolText o.caseSensitive),
      ("default_page_size", Numeral.intText o.defaultPageSize.toInt),
      ("max_page_size", Numeral.intText o.maxPageSize.toInt),
      ("throw_exceptions", Value.boolText o.throwExceptions),
      ("ignore_nulls_on_not_equal", Value.boolText o.ignoreNullsOnNotEqual)]

/-- One field. -/
def field (f : Field) : String :=
  record "FieldMapping"
    [("name", quoted f.name), ("path", quoted f.path), ("can_filter", Value.boolText f.canFilter),
      ("can_sort", Value.boolText f.canSort),
      ("parse_value", if f.reader.isSome then "Some(ValueParser(..))" else "None")]

/-- A table of fields. -/
def fieldTable (t : FieldTable) : String :=
  record "FieldMap" [("mappings", "[" ++ ", ".intercalate (t.fields.map field) ++ "]")]

/-- What a name is registered with. -/
def slot {H : Type} : Slot H → String
  | .handler _ => "Handler(..)"
  | .declared kind => record "Declared" [("actual_type", quoted kind)]

/-- A registry. -/
def registry {H : Type} (r : Registry H) : String :=
  braced (r.entries.map fun (name, s) => quoted name ++ ": " ++ slot s)

/-- A processor. The steps on the target are left out. -/
def processor {Q C : Type} (p : Processor Q C) : String :=
  "SieveProcessor \x7b " ++
    ", ".intercalate
      ["options: " ++ options p.options, "fields: " ++ fieldTable p.fields,
        "custom_filters: " ++ registry p.filters, "custom_sorts: " ++ registry p.sorts, ".."] ++
    " \x7d"

end Criteria.Description
