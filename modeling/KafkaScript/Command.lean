import KafkaScript.Block
import KafkaScript.Text.Decimal

/-!
# Commands

What a block asks for: to send one record, or to start one consumer. Commands
are read off the properties of a block by name; a property that is missing or
has an empty value asks for nothing.
-/

namespace KafkaScript

/-- Reads `name=value` pairs with commas between them. A part without an equals
sign, or with a blank name, is left out. -/
def parseHeaders (t : Text) : List (Text × Text) :=
  (t.splitAll ',').filterMap fun part =>
    (part.splitFirst '=').bind fun (name, value) =>
      if name.trim.isEmpty then none else some (name.trim, value.trim)

/-- The most partitions that one range may cover. -/
def maxPartitionSpan : Nat := 4096

/-- Reads a partition number, which has 32 bits. -/
def readPartition? (t : Text) : Option Nat :=
  (Decimal.read maxUInt32 t).toOption

/-- The numbers of one part of a partition list: a single number, or a range
with both ends included. A part that is neither stands for none, and so does a
range that runs backwards or covers too many partitions. -/
def partitionsOfPart (part : Text) : List Nat :=
  match part.splitFirst '-' with
  | none => (readPartition? part).toList
  | some (first, last) =>
    match readPartition? first.trim, readPartition? last.trim with
    | some a, some b => if a ≤ b ∧ b - a < maxPartitionSpan then List.range' a (b + 1 - a) else []
    | _, _ => []

/-- A list without the elements that equal the one right after them. -/
def dropRepeats : List Nat → List Nat
  | a :: b :: rest => if a = b then dropRepeats (b :: rest) else a :: dropRepeats (b :: rest)
  | l => l

/-- Reads partition numbers and ranges with commas between them, in ascending
order without repetition. -/
def parsePartitions (t : Text) : List Nat :=
  let parts := ((t.splitAll ',').map Text.trim).filter fun part => !part.isEmpty
  dropRepeats ((parts.flatMap partitionsOfPart).mergeSort (· ≤ ·))

/-- All that is needed to send one record. -/
structure ProduceCommand where
  topic : Option Text
  key : Option Text
  value : Option Text
  keyFormat : Option Text
  valueFormat : Option Text
  headers : List (Text × Text)
  every : Option Text
deriving DecidableEq, Repr, Inhabited

/-- All that is needed to start one consumer. No partitions mean all of them. -/
structure ConsumeCommand where
  groupId : Text
  topic : Option Text
  fromOffset : Option Text
  partitions : List Nat
  keyFormat : Option Text
  valueFormat : Option Text
deriving DecidableEq, Repr, Inhabited

/-- What one block asks for. -/
inductive Command where
  | produce (command : ProduceCommand)
  | consume (command : ConsumeCommand)
deriving DecidableEq, Repr, Inhabited

/-- The value of the first property of that name, unless it is empty. -/
def Property.filledValue? (ps : List Property) (name : Text) : Option Text :=
  (valueNamed? ps name).filter fun v => !v.isEmpty

/-- The record that a producer block describes. -/
def ProduceCommand.ofBlock (b : ProducerBlock) : ProduceCommand where
  topic := Property.filledValue? b.properties "topic".toList
  key := Property.filledValue? b.properties "key".toList
  value := b.value.map (·.chunk.content)
  keyFormat := Property.filledValue? b.properties "key-format".toList
  valueFormat := Property.filledValue? b.properties "value-format".toList
  headers := ((Property.valueNamed? b.properties "headers".toList).map parseHeaders).getD []
  every := Property.filledValue? b.properties "every".toList

/-- The consumer that a consumer block describes. -/
def ConsumeCommand.ofBlock (b : ConsumerBlock) : ConsumeCommand where
  groupId := b.groupId.content
  topic := Property.filledValue? b.properties "topic".toList
  fromOffset := Property.filledValue? b.properties "from".toList
  partitions := ((Property.valueNamed? b.properties "partitions".toList).map parsePartitions).getD []
  keyFormat := Property.filledValue? b.properties "key-format".toList
  valueFormat := Property.filledValue? b.properties "value-format".toList

/-- What a block asks for. -/
def Command.ofBlock : Block → Command
  | .producer b => .produce (.ofBlock b)
  | .consumer b => .consume (.ofBlock b)

end KafkaScript
