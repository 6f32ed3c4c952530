/-
  Settings.  They have defaults, and some of them can be overridden by environment variables; a
  number that does not read as an integer is an error, the first one in the order of the settings.
-/
import Schemata.Json.Value
import Schemata.Number.Reading

namespace Schemata

/-- How much history is kept, and where. -/
structure HistoryLimits where
  /-- How many entries are kept. -/
  maxEntries : Int := 100
  /-- How many entries are stored. -/
  maxSaved : Int := 50
  storageKey : String := "schema-history"
  /-- The label of the first entry. -/
  initialLabel : String := "Initial state"
deriving DecidableEq, Repr

/-- How much may be stored, and under which keys. -/
structure StoreLimits where
  maxTotal : Int := 5 * 1024 * 1024
  maxItem : Int := 1024 * 1024
  /-- The size above which a health check clears everything. -/
  validatorTotal : Int := 3 * 1024 * 1024
  /-- The size above which the stored tables are looked at. -/
  corruptionThreshold : Int := 500 * 1024
  maxAverageTable : Int := 50000
  tablesKey : String := "table-list"
  edgesKey : String := "edge-relationships"
  enumsKey : String := "enum-types"
  visibleKey : String := "visible-schemas"
  collapsedKey : String := "collapsed-schemas"
deriving DecidableEq, Repr

namespace StoreLimits

/-- The keys that hold schema data. -/
def schemaKeys (l : StoreLimits) : List String :=
  [l.tablesKey, l.edgesKey, l.enumsKey, l.visibleKey, l.collapsedKey]

/-- The beginnings of keys whose values must be JSON. -/
def jsonKeyStarts : List String := ["table", "edge", "enum", "visible", "collapsed", "schema"]

end StoreLimits

/-- The texts that generated statements are laid out with. -/
structure RenderOptions where
  /-- The type of an enum column whose type has no name. -/
  fallbackType : String := "text"
  enumSection : String := "-- Enum Types"
  usedEnumSection : String := "-- Enum Types in use"
  tableSection : String := "-- Tables"
  constraintSection : String := "-- Constraints"
  indexSection : String := "-- Indexes"
  commentSection : String := "-- Comments"
  missingTable : String := "-- Selected table not found in schema"
deriving DecidableEq, Repr

/-- All settings. -/
structure Settings where
  history : HistoryLimits := {}
  store : StoreLimits := {}
  render : RenderOptions := {}
deriving DecidableEq, Repr

/-- A setting that does not read as an integer. -/
structure SettingsError where
  value : String
  flaw : Number.IntegerFlaw
deriving DecidableEq, Repr

/-- The text of the error. -/
def SettingsError.message (e : SettingsError) : String := e.flaw.message e.value

namespace Settings

/-- The integer of a variable, or a default. -/
def integer (env : String → Option String) (name : String) (default : Int) :
    Except SettingsError Int :=
  match env name with
  | none => .ok default
  | some s =>
    (Number.integer s).mapError fun flaw => ⟨s, flaw⟩

/-- The settings in an environment. -/
def ofEnv (env : String → Option String) : Except SettingsError Settings := do
  let d : Settings := {}
  let maxEntries ← integer env "SCHEMA_HISTORY_MAX_ENTRIES" d.history.maxEntries
  let maxSaved ← integer env "SCHEMA_HISTORY_SAVE_ENTRIES" d.history.maxSaved
  let storageKey := (env "SCHEMA_HISTORY_STORAGE_KEY").getD d.history.storageKey
  let maxTotal ← integer env "SCHEMA_STORAGE_MAX_BYTES" d.store.maxTotal
  let maxItem ← integer env "SCHEMA_STORAGE_MAX_ITEM_BYTES" d.store.maxItem
  let fallbackType := (env "SCHEMA_FALLBACK_COLUMN_TYPE").getD d.render.fallbackType
  return {
    history := { d.history with maxEntries, maxSaved, storageKey }
    store := { d.store with maxTotal, maxItem }
    render := { d.render with fallbackType } }

end Settings

/-! ## The JSON form -/

/-- The JSON form of the limits of a history. -/
def HistoryLimits.toJson (l : HistoryLimits) : Json :=
  .obj [("max_entries", .int l.maxEntries), ("max_entries_to_save", .int l.maxSaved),
    ("storage_key", .str l.storageKey), ("initial_label", .str l.initialLabel)]

/-- The JSON form of the limits of a store. -/
def StoreLimits.toJson (l : StoreLimits) : Json :=
  .obj [("max_total_bytes", .int l.maxTotal), ("max_item_bytes", .int l.maxItem),
    ("validator_total_bytes", .int l.validatorTotal),
    ("corruption_threshold_bytes", .int l.corruptionThreshold),
    ("max_avg_table_bytes", .int l.maxAverageTable), ("tables_key", .str l.tablesKey),
    ("edges_key", .str l.edgesKey), ("enums_key", .str l.enumsKey),
    ("visible_schemas_key", .str l.visibleKey), ("collapsed_schemas_key", .str l.collapsedKey)]

/-- The JSON form of the texts of generated statements. -/
def RenderOptions.toJson (o : RenderOptions) : Json :=
  .obj [("fallback_type", .str o.fallbackType), ("enum_section", .str o.enumSection),
    ("enum_in_use_section", .str o.usedEnumSection), ("table_section", .str o.tableSection),
    ("constraint_section", .str o.constraintSection), ("index_section", .str o.indexSection),
    ("comment_section", .str o.commentSection), ("missing_table_message", .str o.missingTable)]

/-- The JSON form of all settings. -/
def Settings.toJson (s : Settings) : Json :=
  .obj [("history", s.history.toJson), ("storage", s.store.toJson), ("generator", s.render.toJson),
    ("schema_keys", .strings s.store.schemaKeys),
    ("json_key_prefixes", .strings StoreLimits.jsonKeyStarts)]

end Schemata
