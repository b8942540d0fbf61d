import KafkaScript.Block.Kind

/-!
# The catalog of properties

The properties that each kind of block is known to have, with a description and
the values each accepts. The catalog decides where the properties of a producer
block end and its value begins.
-/

namespace KafkaScript

/-- One known property. No values mean that any text is accepted. -/
structure PropertyDefinition where
  name : Text
  description : Text
  values : List Text
deriving DecidableEq, Repr, Inhabited

/-- Whether the property may have the value. -/
def PropertyDefinition.accepts (d : PropertyDefinition) (value : Text) : Bool :=
  d.values.isEmpty || d.values.contains value

/-- The known properties of each kind of block. -/
structure Catalog where
  producer : List PropertyDefinition
  consumer : List PropertyDefinition
deriving DecidableEq, Repr, Inhabited

namespace Catalog

/-- The known properties of a kind of block. -/
def properties (c : Catalog) : BlockKind → List PropertyDefinition
  | .producer => c.producer
  | .consumer => c.consumer

/-- The first property of that name. -/
def definition? (c : Catalog) (kind : BlockKind) (name : Text) : Option PropertyDefinition :=
  (c.properties kind).find? fun d => d.name == name

/-- Whether a kind of block has a property of that name. -/
def isKnown (c : Catalog) (kind : BlockKind) (name : Text) : Bool :=
  (c.definition? kind name).isSome

/-- The formats that keys can have. -/
def keyFormats : List Text :=
  ["none".toList, "string".toList, "double".toList, "float".toList, "integer".toList,
    "long".toList, "short".toList]

/-- The formats that values can have: those of keys, and `json`. -/
def valueFormats : List Text :=
  keyFormats ++ ["json".toList]

/-- The properties known when nothing else is configured. -/
def standard : Catalog where
  producer := [
    ⟨"topic".toList, "The topic the record is sent to.".toList, []⟩,
    ⟨"key".toList, "The record key. May embed `\x7b\x7b \x7d\x7d` expressions.".toList, []⟩,
    ⟨"headers".toList, "Record headers as comma-separated `name=value` pairs.".toList, []⟩,
    ⟨"key-format".toList, "Serializer for the key.".toList, keyFormats⟩,
    ⟨"value-format".toList, "Serializer for the value.".toList, valueFormats⟩,
    ⟨"every".toList, "Repeat the send on an interval such as `5s` or `1m`.".toList, []⟩]
  consumer := [
    ⟨"topic".toList, "The topic to consume from.".toList, []⟩,
    ⟨"from".toList, "Offset to start from: `earliest`, `latest` or an explicit offset.".toList,
      ["earliest".toList, "latest".toList, "0".toList]⟩,
    ⟨"key-format".toList, "Deserializer for the key.".toList, keyFormats⟩,
    ⟨"value-format".toList, "Deserializer for the value.".toList, valueFormats⟩,
    ⟨"partitions".toList, "Partitions to read, such as `0,1,2` or `0-2`.".toList, []⟩]

end Catalog

end KafkaScript
