import Std.Data.TreeMap.Lemmas
import Criteria.Proofs.Processor.Settings
import Criteria.Proofs.Text.Bytes
import Criteria.Record.Query

/-!
# The layers of a processor

Building puts what the settings give in front of what the last configuration has. Both the filling
up of fields and the search for repeated names that follows go by names that agree, so what stays are
the first fields of the two layers together. A configuration is a map, so its layer is in the order
of the names, and each of them is there once.
-/

namespace Criteria

variable {Q C : Type}

/-! ## The layer of a configuration -/

/-- The fields of a configuration, each with what stands for it there: a path alone leaves a field
to filter and to sort by, and without any path the name is the path. -/
def configuredFields (fields : NameMap FieldSetup) : List Field :=
  fields.toList.map fun (name, setup) =>
    match setup with
    | .path path => { name, path, canFilter := true, canSort := true, reader := none }
    | .options path canFilter canSort reader =>
      { name, path := path.getD name, canFilter, canSort, reader }

/-- The entries for the names that a configuration gives to methods. None of them has code. -/
def declaredEntries {H : Type} (names : NameMap String) : List (String × Slot H) :=
  names.toList.map fun (name, kind) => (name, .declared kind)

/-- The entries of a configuration for the names that are not taken, each name once. -/
def freeEntries {H : Type} (caseSensitive : Bool) (taken entries : List (String × Slot H)) :
    List (String × Slot H) :=
  (Named.firsts Prod.fst caseSensitive entries).filter fun (name, _) =>
    !Named.taken Prod.fst caseSensitive taken name

/-- Every name has lower bytes than those behind it. -/
def InByteOrder (names : List String) : Prop :=
  names.Pairwise fun a b => Text.bytes a < Text.bytes b

theorem NameMap.inByteOrder {α : Type} (m : NameMap α) : InByteOrder (m.toList.map Prod.fst) := by
  rw [InByteOrder, List.pairwise_map]
  refine Std.TreeMap.ordered_keys_toList.imp fun hlt => Text.bytes_lt ?_
  exact compareOfLessAndEq_eq_lt.mp hlt

theorem InByteOrder.nodup {names : List String} (h : InByteOrder names) : names.Nodup := by
  refine h.imp fun hlt heq => ?_
  rw [heq] at hlt
  exact List.lt_irrefl _ hlt

theorem names_declaredEntries {H : Type} (names : NameMap String) :
    (declaredEntries (H := H) names).map Prod.fst = names.toList.map Prod.fst := by
  rw [declaredEntries, List.map_map]
  rfl

theorem names_configuredFields (fields : NameMap FieldSetup) :
    (configuredFields fields).map Field.name = fields.toList.map Prod.fst := by
  rw [configuredFields, List.map_map]
  refine List.map_congr_left fun (name, setup) _ => ?_
  cases setup <;> rfl

theorem fields_fieldTable (c : Config) : c.fieldTable.fields = configuredFields c.fields := by
  refine List.map_congr_left fun (name, setup) _ => ?_
  cases setup <;> rfl

theorem entries_ofDeclared {H : Type} (names : NameMap String) :
    (Registry.ofDeclared (H := H) names.toList).entries = declaredEntries names := by
  have hput : (Registry.ofDeclared (H := H) names.toList).entries =
      (declaredEntries names).foldl (fun entries e => Named.put Prod.fst e entries) [] := by
    rw [declaredEntries, List.foldl_map, Registry.ofDeclared]
    exact (List.foldl_hom Registry.entries fun _ _ => rfl).symm
  rw [hput, Named.foldl_put, Named.settled_of_nodup]
  rw [names_declaredEntries]
  exact names.inByteOrder.nodup

namespace Processor

/-- The processor that is built with some settings. -/
def built (backend : Backend Q) (settings : List (Setting Q C)) : Processor Q C :=
  (Builder.takeAll { backend } settings).build

/-- What a processor is that some settings make in layers. -/
structure Layered (backend : Backend Q) (settings : List (Setting Q C)) (p : Processor Q C) :
    Prop where
  backend : p.backend = backend
  /-- An option has the value that it is given last, or else that of the last configuration, or else
  the default. -/
  options : ∀ key : OptionKey, key.get p.options =
    (Setting.lastValue key settings).getD
      (((Setting.lastConfig settings).map fun c => key.get c.options).getD (key.get {}))
  /-- Of the fields that are given, and of those of the last configuration behind them, the first of
  every name stays. -/
  fields : p.fields.fields = Named.firsts Field.name p.options.caseSensitive
    (Setting.runtimeFields settings ++ configuredFields (Setting.loaded settings).fields)
  /-- The entries of the last configuration stand behind those that are given, as far as their names
  are free. -/
  filters : p.filters.entries = Setting.runtimeFilters settings ++
    freeEntries p.options.caseSensitive (Setting.runtimeFilters settings)
      (declaredEntries (Setting.loaded settings).filters)
  sorts : p.sorts.entries = Setting.runtimeSorts settings ++
    freeEntries p.options.caseSensitive (Setting.runtimeSorts settings)
      (declaredEntries (Setting.loaded settings).sorts)
  /-- A configuration has its fields and methods in the order of the bytes of their names. -/
  ordered :
    InByteOrder ((configuredFields (Setting.loaded settings).fields).map Field.name) ∧
    InByteOrder ((declaredEntries (H := FilterMethod Q C) (Setting.loaded settings).filters).map
      Prod.fst) ∧
    InByteOrder ((declaredEntries (H := SortMethod Q C) (Setting.loaded settings).sorts).map
      Prod.fst)
  /-- No name stands for two fields. -/
  disjoint : p.fields.fields.Pairwise fun f g =>
    namesAgree p.options.caseSensitive f.name g.name = false

/-! ## What is built of the layers -/

variable (backend : Backend Q) (settings : List (Setting Q C))

theorem options_built (key : OptionKey) :
    key.get (built backend settings).options =
      (Setting.lastValue key settings).getD
        (((Setting.lastConfig settings).map fun c => key.get c.options).getD (key.get {})) := by
  rw [built, Builder.build]
  dsimp only
  rw [OptionKey.get_onto, Builder.override_takeAll, Builder.config_takeAll]
  cases Setting.lastConfig settings <;> rfl

theorem fields_built :
    (built backend settings).fields.fields =
      Named.firsts Field.name (built backend settings).options.caseSensitive
        (Setting.runtimeFields settings ++
          configuredFields (Setting.loaded settings).fields) := by
  have hbuild : (built backend settings).fields.fields =
      (Named.distinct Field.name (built backend settings).options.caseSensitive
        (Named.fill Field.name (built backend settings).options.caseSensitive
          (Builder.takeAll { backend } settings).fields.fields
          ((Builder.takeAll { backend } settings).config.getD {}).fieldTable.fields)).1 := rfl
  rw [hbuild, Named.distinct_fst, Named.firsts_fill, Builder.fields_takeAll, Builder.loaded_takeAll,
    fields_fieldTable]

theorem entries_fill {H : Type} (r : Registry H) (names : NameMap String) (caseSensitive : Bool) :
    (r.fill (.ofDeclared names.toList) caseSensitive).entries =
      r.entries ++ freeEntries caseSensitive r.entries (declaredEntries names) := by
  rw [Registry.fill, entries_ofDeclared, Named.fill_eq, freeEntries]

/-- A processor is made of its settings in layers, and it does not matter where among the settings
the last configuration stands. -/
theorem built_layered :
    (built backend settings).Layered backend settings ∧
      built backend (Setting.configLast settings) = built backend settings := by
  constructor
  · refine ⟨?_, options_built backend settings, fields_built backend settings, ?_, ?_, ?_, ?_⟩
    · exact Builder.backend_takeAll { backend } settings
    · rw [← Builder.filters_takeAll backend, ← Builder.loaded_takeAll backend]
      exact entries_fill _ _ _
    · rw [← Builder.sorts_takeAll backend, ← Builder.loaded_takeAll backend]
      exact entries_fill _ _ _
    · rw [names_configuredFields, names_declaredEntries, names_declaredEntries]
      exact ⟨NameMap.inByteOrder _, NameMap.inByteOrder _, NameMap.inByteOrder _⟩
    · rw [fields_built]
      exact Named.pairwise_firsts _ _ _
  · exact congrArg Builder.build (Builder.takeAll_configLast { backend } settings)

/-- A configuration with two fields of its own, and with a field and a filter whose names are taken
by the settings below. -/
def archive : Config where
  options := { defaultPageSize := 10, maxPageSize := 50 }
  fields := .ofList [("title", FieldSetup.path "headline"),
    ("author", FieldSetup.options none true false none),
    ("Likes", FieldSetup.options (some "stats.likes") false true none)]
  filters := .ofList [("recent", "string"), ("popular", "number")]

/-- Settings before and behind that configuration; one field is given twice. -/
def archiveSettings : List (Setting Query Unit) :=
  [.option .maxPageSize (20 : Int64), .field ⟨"Title", "t", true, true, none⟩, .config {},
    .declareFilter "Recent" "object", .config archive, .field ⟨"Title", "name", true, false, none⟩]

theorem built_layered_archive :
    (built Query.backend archiveSettings).Layered Query.backend archiveSettings ∧
      (built Query.backend archiveSettings).fields.fields =
        [⟨"Title", "name", true, false, none⟩, ⟨"Likes", "stats.likes", false, true, none⟩,
          ⟨"author", "author", true, false, none⟩] ∧
      (built Query.backend archiveSettings).filters.entries =
        [("Recent", .declared "object"), ("popular", .declared "number")] ∧
      OptionKey.maxPageSize.get (built Query.backend archiveSettings).options = (20 : Int64) ∧
      OptionKey.defaultPageSize.get (built Query.backend archiveSettings).options =
        (10 : Int64) := by
  obtain ⟨h, -⟩ := built_layered Query.backend archiveSettings
  refine ⟨h, ?_, ?_, ?_, ?_⟩
  · rw [h.fields]
    rfl
  · rw [h.filters]
    rfl
  · exact h.options .maxPageSize
  · exact h.options .defaultPageSize

end Processor

end Criteria
