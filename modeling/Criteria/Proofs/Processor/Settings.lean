import Criteria.Processor.Builder
import Criteria.Proofs.Name.Merging

/-!
# Settings of a builder

A builder is given settings, one after the other. What each says about the configuration, an option,
the fields or a registry does not depend on the others, and the builder is left with what all of
them say together: of the configurations and of the values of an option the last one, and of the
fields and of each registry the settled list.
-/

namespace Criteria

variable {Q C : Type}

/-! ## Options by key -/

inductive OptionKey where
  | caseSensitive
  | defaultPageSize
  | maxPageSize
  | throwExceptions
  | ignoreNulls
  deriving DecidableEq

namespace OptionKey

def Value : OptionKey → Type
  | caseSensitive | throwExceptions | ignoreNulls => Bool
  | defaultPageSize | maxPageSize => Int64

def get : (key : OptionKey) → Options → key.Value
  | caseSensitive, o => o.caseSensitive
  | defaultPageSize, o => o.defaultPageSize
  | maxPageSize, o => o.maxPageSize
  | throwExceptions, o => o.throwExceptions
  | ignoreNulls, o => o.ignoreNullsOnNotEqual

def override : (key : OptionKey) → OptionOverrides → Option key.Value
  | caseSensitive, o => o.caseSensitive
  | defaultPageSize, o => o.defaultPageSize
  | maxPageSize, o => o.maxPageSize
  | throwExceptions, o => o.throwExceptions
  | ignoreNulls, o => o.ignoreNullsOnNotEqual

theorem get_onto (key : OptionKey) (set : OptionOverrides) (base : Options) :
    key.get (set.onto base) = (key.override set).getD (key.get base) := by
  cases key <;> rfl

end OptionKey

/-! ## Settings -/

/-- One call on a builder. -/
inductive Setting (Q C : Type) where
  | config (c : Config)
  | options (o : Options)
  | option (key : OptionKey) (value : key.Value)
  | field (f : Field)
  | fields (t : FieldTable)
  | filter (name : String) (method : FilterMethod Q C)
  | sort (name : String) (method : SortMethod Q C)
  | declareFilter (name kind : String)
  | declareSort (name kind : String)

namespace Setting

def config? : Setting Q C → Option Config
  | config c => some c
  | _ => none

def value? (key : OptionKey) : Setting Q C → Option key.Value
  | options o => some (key.get o)
  | option key' value => if h : key' = key then some (h ▸ value) else none
  | _ => none

def givenFields : Setting Q C → List Field
  | field f => [f]
  | fields t => t.fields
  | _ => []

def givenFilters : Setting Q C → List (String × Slot (FilterMethod Q C))
  | filter name method => [(name, .handler method)]
  | declareFilter name kind => [(name, .declared kind)]
  | _ => []

def givenSorts : Setting Q C → List (String × Slot (SortMethod Q C))
  | sort name method => [(name, .handler method)]
  | declareSort name kind => [(name, .declared kind)]
  | _ => []

end Setting

theorem fields_insertAll (t other : FieldTable) :
    (t.insertAll other).fields =
      other.fields.foldl (fun fields f => Named.put Field.name f fields) t.fields := by
  rw [FieldTable.insertAll]
  exact (List.foldl_hom FieldTable.fields fun _ _ => rfl).symm

namespace Builder

def setOption (b : Builder Q C) : (key : OptionKey) → key.Value → Builder Q C
  | .caseSensitive, on => b.caseSensitive on
  | .defaultPageSize, size => b.defaultPageSize size
  | .maxPageSize, size => b.maxPageSize size
  | .throwExceptions, on => b.throwExceptions on
  | .ignoreNulls, on => b.ignoreNulls on

/-- Takes a setting. -/
def take (b : Builder Q C) : Setting Q C → Builder Q C
  | .config c => b.withConfig c
  | .options o => b.withOptions o
  | .option key value => b.setOption key value
  | .field f => b.withField f
  | .fields t => b.withFields t
  | .filter name method => b.withFilter name method
  | .sort name method => b.withSort name method
  | .declareFilter name kind => b.declareFilter name kind
  | .declareSort name kind => b.declareSort name kind

def takeAll (b : Builder Q C) (settings : List (Setting Q C)) : Builder Q C :=
  settings.foldl take b

/-! ## One setting -/

variable (b : Builder Q C) (s : Setting Q C)

theorem backend_take : (b.take s).backend = b.backend := by
  cases s with
  | option key value => cases key <;> rfl
  | _ => rfl

theorem config_take : (b.take s).config = s.config?.or b.config := by
  cases s with
  | option key value => cases key <;> rfl
  | _ => rfl

theorem override_take (key : OptionKey) :
    key.override (b.take s).overrides = (s.value? key).or (key.override b.overrides) := by
  cases s with
  | options o => cases key <;> rfl
  | option key' value => cases key' <;> cases key <;> rfl
  | _ => rfl

theorem fields_take :
    (b.take s).fields.fields =
      s.givenFields.foldl (fun fields f => Named.put Field.name f fields) b.fields.fields := by
  cases s with
  | option key value => cases key <;> rfl
  | fields t => exact fields_insertAll b.fields t
  | _ => rfl

theorem filters_take :
    (b.take s).filters.entries =
      s.givenFilters.foldl (fun entries e => Named.put Prod.fst e entries) b.filters.entries := by
  cases s with
  | option key value => cases key <;> rfl
  | _ => rfl

theorem sorts_take :
    (b.take s).sorts.entries =
      s.givenSorts.foldl (fun entries e => Named.put Prod.fst e entries) b.sorts.entries := by
  cases s with
  | option key value => cases key <;> rfl
  | _ => rfl

/-! ## All settings -/

/-- The last thing that a setting says of a kind is what remains of that kind. -/
theorem takeAll_last {α : Type} (kept : Builder Q C → Option α) (said : Setting Q C → Option α)
    (htake : ∀ b s, kept (b.take s) = (said s).or (kept b)) (b : Builder Q C)
    (settings : List (Setting Q C)) :
    kept (b.takeAll settings) = ((settings.filterMap said).getLast?).or (kept b) := by
  induction settings generalizing b with
  | nil => rfl
  | cons s rest ih =>
    rw [takeAll, List.foldl_cons, ← takeAll, ih, htake, List.filterMap_cons]
    cases said s with
    | none => rfl
    | some a =>
      rw [List.getLast?_cons]
      cases (rest.filterMap said).getLast? <;> rfl

/-- Of the things of a kind that settings give, every name is settled. -/
theorem takeAll_settled {α : Type} (name : α → String) (kept : Builder Q C → List α)
    (given : Setting Q C → List α)
    (htake : ∀ b s, kept (b.take s) = (given s).foldl (fun xs x => Named.put name x xs) (kept b))
    {b : Builder Q C} (hempty : kept b = []) (settings : List (Setting Q C)) :
    kept (b.takeAll settings) = Named.settled name (settings.flatMap given) := by
  rw [← Named.foldl_put, ← hempty]
  clear hempty
  induction settings generalizing b with
  | nil => rfl
  | cons s rest ih =>
    rw [takeAll, List.foldl_cons, ← takeAll, ih, htake, List.flatMap_cons, List.foldl_append]

theorem backend_takeAll (b : Builder Q C) (settings : List (Setting Q C)) :
    (b.takeAll settings).backend = b.backend := by
  induction settings generalizing b with
  | nil => rfl
  | cons s rest ih => exact (ih (b.take s)).trans (b.backend_take s)

theorem take_of_config? {b : Builder Q C} {s : Setting Q C} {c : Config}
    (h : s.config? = some c) : b.take s = b.withConfig c := by
  cases s with
  | config c' => rw [← Option.some.inj h]; rfl
  | _ => exact absurd h.symm (Option.some_ne_none _)

/-- A configuration that is given earlier is as good as one that is given later. -/
theorem take_withConfig (b : Builder Q C) (c : Config) {s : Setting Q C} (h : s.config? = none) :
    (b.withConfig c).take s = (b.take s).withConfig c := by
  cases s with
  | config => exact absurd h (Option.some_ne_none _)
  | option key value => cases key <;> rfl
  | _ => rfl

end Builder

namespace Setting

/-- The configuration that is given last. -/
def lastConfig (settings : List (Setting Q C)) : Option Config :=
  (settings.filterMap config?).getLast?

theorem lastConfig_concat (settings : List (Setting Q C)) (s : Setting Q C) :
    lastConfig (settings ++ [s]) = s.config?.or (lastConfig settings) := by
  rw [lastConfig, List.filterMap_append, List.getLast?_append, ← lastConfig]
  cases hconfig : s.config? <;> simp [hconfig, lastConfig]

/-- The configuration that counts, which says nothing if there is none. -/
def loaded (settings : List (Setting Q C)) : Config := (lastConfig settings).getD {}

/-- The value that an option is given last, on its own or with all others. -/
def lastValue (key : OptionKey) (settings : List (Setting Q C)) : Option key.Value :=
  (settings.filterMap (value? key)).getLast?

/-- The fields that are given, each name once. -/
def runtimeFields (settings : List (Setting Q C)) : List Field :=
  Named.settled Field.name (settings.flatMap givenFields)

def runtimeFilters (settings : List (Setting Q C)) : List (String × Slot (FilterMethod Q C)) :=
  Named.settled Prod.fst (settings.flatMap givenFilters)

def runtimeSorts (settings : List (Setting Q C)) : List (String × Slot (SortMethod Q C)) :=
  Named.settled Prod.fst (settings.flatMap givenSorts)

/-- The settings without the configurations, and the last configuration at the end. -/
def configLast (settings : List (Setting Q C)) : List (Setting Q C) :=
  settings.filter (fun s => s.config?.isNone) ++ (lastConfig settings).toList.map config

end Setting

namespace Builder

theorem takeAll_concat (b : Builder Q C) (settings : List (Setting Q C)) (s : Setting Q C) :
    b.takeAll (settings ++ [s]) = (b.takeAll settings).take s :=
  List.foldl_append

theorem takeAll_append_config (b : Builder Q C) (front : List (Setting Q C))
    (last : Option Config) :
    b.takeAll (front ++ last.toList.map .config) =
      last.elim (b.takeAll front) (b.takeAll front).withConfig := by
  cases last with
  | none => exact congrArg b.takeAll (List.append_nil front)
  | some c => exact takeAll_concat b front (.config c)

/-- It does not matter where among the settings the last configuration stands. -/
theorem takeAll_configLast (b : Builder Q C) (settings : List (Setting Q C)) :
    b.takeAll (Setting.configLast settings) = b.takeAll settings := by
  -- By the last setting: a configuration there makes all earlier ones void, and any other setting
  -- changes places with the configuration.
  induction settings using List.reverseRecOn with
  | nil => rfl
  | append_singleton settings s ih =>
    rw [Setting.configLast, takeAll_append_config] at ih ⊢
    rw [takeAll_concat, ← ih, Setting.lastConfig_concat, List.filter_append]
    cases hconfig : s.config? with
    | some c =>
      have hset : [s].filter (fun s => s.config?.isNone) = [] := by simp [hconfig]
      rw [hset, List.append_nil, take_of_config? hconfig]
      cases Setting.lastConfig settings <;> rfl
    | none =>
      have hset : [s].filter (fun s => s.config?.isNone) = [s] := by simp [hconfig]
      rw [hset, takeAll_concat]
      cases Setting.lastConfig settings with
      | none => rfl
      | some c => exact (take_withConfig _ c hconfig).symm

/-! ## What the builder is left with -/

variable (backend : Backend Q) (settings : List (Setting Q C))

theorem config_takeAll :
    (takeAll { backend } settings).config = Setting.lastConfig settings :=
  (takeAll_last _ Setting.config? config_take _ settings).trans Option.or_none

theorem override_takeAll (key : OptionKey) :
    key.override (takeAll { backend } settings).overrides =
      Setting.lastValue key settings := by
  rw [takeAll_last (fun b => key.override b.overrides) (Setting.value? key)
    (fun b s => b.override_take s key)]
  cases key <;> exact Option.or_none

theorem fields_takeAll :
    (takeAll { backend } settings).fields.fields = Setting.runtimeFields settings :=
  takeAll_settled Field.name (fun b => b.fields.fields) Setting.givenFields
    fields_take rfl settings

theorem filters_takeAll :
    (takeAll { backend } settings).filters.entries = Setting.runtimeFilters settings :=
  takeAll_settled Prod.fst (fun b => b.filters.entries) Setting.givenFilters
    filters_take rfl settings

theorem sorts_takeAll :
    (takeAll { backend } settings).sorts.entries = Setting.runtimeSorts settings :=
  takeAll_settled Prod.fst (fun b => b.sorts.entries) Setting.givenSorts
    sorts_take rfl settings

theorem loaded_takeAll :
    (takeAll { backend } settings).config.getD {} = Setting.loaded settings := by
  rw [config_takeAll, Setting.loaded]

end Builder

end Criteria
