import KafkaScript.Text.Position

/-!
# Chunks

A chunk is a piece of a script's text together with the place where it stands
and the role it plays there. An expression is a marked part of a chunk, of
which only the place is kept.
-/

namespace KafkaScript

/-- The role a chunk plays in the node that holds it. -/
inductive ChunkKind where
  | propertyKey
  | propertyValue
  | producerValue
  | consumerGroupId
deriving DecidableEq, Repr, Inhabited

/-- A piece of text, its place and its role. -/
structure TextChunk where
  content : Text
  range : Range
  kind : ChunkKind
deriving DecidableEq, Repr, Inhabited

/-- A part of a chunk that begins with two opening braces. `range` includes the
braces and `inner` is what stands between them; an expression that is not
closed runs to the end of its chunk. -/
structure Expression where
  range : Range
  inner : Range
  closed : Bool
deriving DecidableEq, Repr, Inhabited

/-- Every expression has its opening braces. -/
def Expression.opened (_ : Expression) : Bool := true

end KafkaScript
