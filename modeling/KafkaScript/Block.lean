import KafkaScript.Property

/-!
# Blocks

A producer block describes one record to send: properties, then a value that
runs to the end of the block. A consumer block describes a consumer: the group
that its opening line names, then properties.
-/

namespace KafkaScript

/-- One record to send. -/
structure ProducerBlock where
  range : Range
  properties : List Property
  value : Option Template
deriving DecidableEq, Repr, Inhabited

/-- One consumer to start. -/
structure ConsumerBlock where
  range : Range
  groupId : TextChunk
  properties : List Property
deriving DecidableEq, Repr, Inhabited

/-- One block of a script. -/
inductive Block where
  | producer (block : ProducerBlock)
  | consumer (block : ConsumerBlock)
deriving DecidableEq, Repr, Inhabited

namespace Property

/-- The first property of that name. -/
def named? (ps : List Property) (name : Text) : Option Property :=
  ps.find? fun p => p.name? == some name

/-- The value of the first property of that name. -/
def valueNamed? (ps : List Property) (name : Text) : Option Text :=
  (named? ps name).bind value?

end Property

namespace Block

/-- The kind of the block. -/
def kind : Block → BlockKind
  | producer _ => .producer
  | consumer _ => .consumer

/-- The lines of the block. -/
def range : Block → Range
  | producer b => b.range
  | consumer b => b.range

/-- The properties of the block in order. -/
def properties : Block → List Property
  | producer b => b.properties
  | consumer b => b.properties

/-- The block itself, unless a position in the template of one of its properties
leaves 64 bits. -/
def checked (b : Block) : Except Fault Block :=
  (b.properties.mapM Property.checked).map fun _ => b

/-- The first property of that name. -/
def property? (b : Block) (name : Text) : Option Property :=
  Property.named? b.properties name

/-- The value of the first property of that name. -/
def propertyValue? (b : Block) (name : Text) : Option Text :=
  Property.valueNamed? b.properties name

end Block

end KafkaScript
