import KafkaScript.Command
import KafkaScript.Json
import KafkaScript.Script.Path

/-!
# Scripts and commands as JSON

Every field of a node is written, the ones that only help to find things as
well. What may be one of several things is an object with one field, named for
the thing that it is.
-/

namespace KafkaScript

/-- An object from its fields. -/
private def record (fields : List (String × Json)) : Json :=
  .object (fields.map fun (name, value) => (name.toList, value))

/-- A position as an object of its two numbers. -/
def Position.toJson (p : Position) : Json :=
  record [("line", .nat p.line), ("character", .nat p.character)]

/-- A range as an object of its two ends. -/
def Range.toJson (r : Range) : Json :=
  record [("start", r.start.toJson), ("end", r.stop.toJson)]

/-- The kind of a node under its name. -/
def NodeKind.toJson (k : NodeKind) : Json :=
  .string k.name

/-- A chunk: its text, its place and its role. -/
def TextChunk.toJson (c : TextChunk) : Json :=
  record [("content", .string c.content), ("range", c.range.toJson),
    ("kind", (NodeKind.ofChunk c.kind).toJson)]

/-- An expression: its places, and which of its marks are there. -/
def Expression.toJson (e : Expression) : Json :=
  record [("range", e.range.toJson), ("expression_range", e.inner.toJson),
    ("opened", .bool e.opened), ("closed", .bool e.closed)]

/-- A template: its chunk and the expressions in it. -/
def Template.toJson (t : Template) : Json :=
  record [("chunk", t.chunk.toJson), ("expressions", .array (t.expressions.map (·.toJson))),
    ("unclosed_expression", .ofOption (·.toJson) t.unclosed)]

/-- The value of a property under the name of what it is. -/
def Chunk.toJson : Chunk → Json
  | .literal c => record [("Literal", c.toJson)]
  | .dynamic t => record [("Dynamic", t.toJson)]

/-- A property with the place of its assigner. -/
def Property.toJson (p : Property) : Json :=
  record [("key", .ofOption (·.toJson) p.key), ("assigner_character", .ofOption .nat p.assigner),
    ("value", .ofOption (·.toJson) p.value), ("range", p.range.toJson)]

/-- A block under the name of its kind. -/
def Block.toJson : Block → Json
  | .producer b => record [("Producer", record [("range", b.range.toJson),
      ("properties", .array (b.properties.map (·.toJson))),
      ("value", .ofOption (·.toJson) b.value)])]
  | .consumer b => record [("Consumer", record [("range", b.range.toJson),
      ("consumer_group_id", b.groupId.toJson),
      ("properties", .array (b.properties.map (·.toJson)))])]

/-- A whole script. -/
def Script.toJson (s : Script) : Json :=
  record [("range", s.range.toJson), ("blocks", .array (s.blocks.map (·.toJson)))]

/-- A command with its kind as the first field. -/
def Command.toJson : Command → Json
  | .produce c => record [("command", .string "produce_record".toList),
      ("topic", .ofOption .string c.topic), ("key", .ofOption .string c.key),
      ("value", .ofOption .string c.value), ("key_format", .ofOption .string c.keyFormat),
      ("value_format", .ofOption .string c.valueFormat),
      ("headers", .array (c.headers.map fun (name, value) => .array [.string name, .string value])),
      ("every", .ofOption .string c.every)]
  | .consume c => record [("command", .string "launch_consumer".toList),
      ("consumer_group_id", .string c.groupId), ("topic", .ofOption .string c.topic),
      ("from_offset", .ofOption .string c.fromOffset),
      ("partitions", .array (c.partitions.map .nat)),
      ("key_format", .ofOption .string c.keyFormat),
      ("value_format", .ofOption .string c.valueFormat)]

/-- What is known of a property. An empty list of values is left out. -/
def PropertyDefinition.toJson (d : PropertyDefinition) : Json :=
  record ([("name", .string d.name), ("description", .string d.description)] ++
    if d.values.isEmpty then [] else [("values", .array (d.values.map .string))])

/-- A catalog: the properties of each kind of block. -/
def Catalog.toJson (c : Catalog) : Json :=
  record [("producer", .array (c.producer.map (·.toJson))),
    ("consumer", .array (c.consumer.map (·.toJson)))]

/-- The kinds and ranges of the nodes of a path, with all fields in the order
of their names. -/
def NodePath.toJson (path : NodePath) : Json :=
  let place (p : Position) : Json :=
    record [("character", .nat p.character), ("line", .nat p.line)]
  .array (path.nodes.map fun n => record [("kind", n.kind.toJson),
    ("range", record [("end", place n.range.stop), ("start", place n.range.start)])])

end KafkaScript
