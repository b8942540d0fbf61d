import KafkaScript.Config
import KafkaScript.Toml

/-!
# Configurations as TOML

The fields of a configuration and of its parts by their names. What may be left
out has a standard value; entries with other names are passed over. A number
must fit in 64 bits, without a sign for the number of entries and with one for
the interval.
-/

namespace KafkaScript

/-- The names of the fields of a property, in order. -/
def PropertyDefinition.fieldNames : List Text :=
  ["name".toList, "description".toList, "values".toList]

/-- The names of the fields of the cache's bounds, in order. -/
def CacheConfig.fieldNames : List Text :=
  ["max_entries".toList, "cleanup_interval_seconds".toList]

/-- The names of the fields of a table of properties. -/
def Config.tableFieldNames : List Text :=
  ["properties".toList]

/-- The names of the fields of a configuration, in order. -/
def Config.fieldNames : List Text :=
  ["kafka_files_path".toList, "cache".toList, "producer".toList, "consumer".toList]

/-! ## Writing -/

/-- A property. An empty list of values is left out. -/
def PropertyDefinition.toToml (d : PropertyDefinition) : Toml :=
  .table ([("name".toList, .string d.name), ("description".toList, .string d.description)] ++
    if d.values.isEmpty then [] else [("values".toList, .array (d.values.map .string))])

/-- The bounds of the cache. -/
def CacheConfig.toToml (c : CacheConfig) : Toml :=
  .table [("max_entries".toList, .integer c.maxEntries),
    ("cleanup_interval_seconds".toList, .integer c.cleanupSeconds)]

namespace Config

/-- The properties of a kind of block. -/
def tableToToml (properties : List PropertyDefinition) : Toml :=
  .table [("properties".toList, .array (properties.map (·.toToml)))]

/-- An entry for what is configured; none for what is not. -/
def entryFor {α : Type} (name : String) (f : α → Toml) : Option α → List (Text × Toml)
  | none => []
  | some a => [(name.toList, f a)]

/-- The entries of a configuration. -/
def toToml (c : Config) : List (Text × Toml) :=
  entryFor "kafka_files_path" .string c.scriptsPath ++ [("cache".toList, c.cache.toToml)] ++
    entryFor "producer" tableToToml c.producer ++ entryFor "consumer" tableToToml c.consumer

end Config

/-! ## Reading -/

/-- A field that may be missing. -/
def Toml.optional {α : Type} (read : Toml → Option α) (standard : α) : Option Toml → Option α
  | none => some standard
  | some v => read v

/-- A list of texts. -/
def Toml.texts? (v : Toml) : Option (List Text) :=
  v.elements?.bind fun vs => vs.mapM Toml.text?

/-- A number of 64 bits without a sign. -/
def Toml.nat64? (v : Toml) : Option Nat :=
  (v.integer?.filter fun n : Int => 0 ≤ n && n ≤ maxUInt64).map Int.toNat

/-- A number of 64 bits with a sign. -/
def Toml.int64? (v : Toml) : Option Int :=
  v.integer?.filter fun n => -0x8000000000000000 ≤ n && n ≤ 0x7FFFFFFFFFFFFFFF

/-- The property that a record describes. Only its name is required. -/
def PropertyDefinition.ofToml? (v : Toml) : Option PropertyDefinition := do
  match ← v.fields? fieldNames with
  | [name, description, values] =>
    return ⟨← name.bind Toml.text?, ← Toml.optional Toml.text? [] description,
      ← Toml.optional Toml.texts? [] values⟩
  | _ => none

/-- The bounds of the cache that a record describes. -/
def CacheConfig.ofToml? (v : Toml) : Option CacheConfig := do
  match ← v.fields? fieldNames with
  | [maxEntries, seconds] =>
    return ⟨← Toml.optional Toml.nat64? CacheOptions.defaultMaxEntries maxEntries,
      ← Toml.optional Toml.int64? CacheOptions.defaultSeconds seconds⟩
  | _ => none

namespace Config

/-- The properties of a kind of block that a record lists. -/
def tableOfToml? (v : Toml) : Option (List PropertyDefinition) := do
  match ← v.fields? tableFieldNames with
  | [properties] => (← properties.bind Toml.elements?).mapM PropertyDefinition.ofToml?
  | _ => none

/-- The configuration that a document describes. -/
def ofToml? (entries : List (Text × Toml)) : Option Config := do
  match ← (Toml.table entries).fields? fieldNames with
  | [path, cache, producer, consumer] =>
    return ⟨← Toml.optional (fun v => v.text?.map some) none path,
      ← Toml.optional CacheConfig.ofToml? {} cache,
      ← Toml.optional (fun v => (tableOfToml? v).map some) none producer,
      ← Toml.optional (fun v => (tableOfToml? v).map some) none consumer⟩
  | _ => none

end Config

end KafkaScript
