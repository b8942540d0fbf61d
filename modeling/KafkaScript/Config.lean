import KafkaScript.Cache
import KafkaScript.Catalog
import KafkaScript.Text.Quoted

/-!
# Configurations

A configuration says where script files are found when none is named, how many
models are cached and for how long, and which properties each kind of block is
known to have. Whatever it leaves open is as if nothing were configured.
-/

namespace KafkaScript

/-- The bounds of the cache. An interval that is not positive is none. -/
structure CacheConfig where
  maxEntries : Nat := CacheOptions.defaultMaxEntries
  cleanupSeconds : Int := CacheOptions.defaultSeconds
deriving DecidableEq, Repr, Inhabited

/-- A configuration. The known properties of a kind of block replace the standard
ones as a whole. -/
structure Config where
  scriptsPath : Option Text := none
  cache : CacheConfig := {}
  producer : Option (List PropertyDefinition) := none
  consumer : Option (List PropertyDefinition) := none
deriving DecidableEq, Repr, Inhabited

/-- Why a configuration cannot be used. -/
inductive ConfigFlaw where
  /-- The cache would have no room. -/
  | noEntries
  /-- A property of a kind of block has a name that no line can have. -/
  | blankName (kind : BlockKind) (name : Text)
deriving DecidableEq, Repr

/-- The wording of a flaw. -/
def ConfigFlaw.message : ConfigFlaw → Text
  | noEntries => "cache.max_entries must be at least 1".toList
  | blankName kind name => kind.name ++ " property with blank name ".toList ++ name.quoted

namespace Config

/-- The bounds of the cache. -/
def cacheOptions (c : Config) : CacheOptions :=
  .fromSeconds c.cache.maxEntries c.cache.cleanupSeconds

/-- The properties configured for a kind of block. -/
def table? (c : Config) : BlockKind → Option (List PropertyDefinition)
  | .producer => c.producer
  | .consumer => c.consumer

/-- The known properties: those configured, else the standard ones. -/
def catalog (c : Config) : Catalog where
  producer := c.producer.getD Catalog.standard.producer
  consumer := c.consumer.getD Catalog.standard.consumer

/-- The first property with a blank name among those configured for a kind of
block. -/
def blankName? (c : Config) (kind : BlockKind) : Option ConfigFlaw :=
  (((c.table? kind).getD []).find? fun d => d.name.trim.isEmpty).map fun d =>
    .blankName kind d.name

/-- The first flaw of a configuration: the cache comes before the producer's
properties, and these before the consumer's. -/
def flaw? (c : Config) : Option ConfigFlaw :=
  if c.cache.maxEntries = 0 then some .noEntries
  else c.blankName? .producer <|> c.blankName? .consumer

end Config

end KafkaScript
