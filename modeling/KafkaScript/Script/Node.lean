import KafkaScript.Script

/-!
# Nodes

A script, its blocks, their properties, the chunks of these and the expressions
in them form a tree. A node is any value of that tree, and its children are the
parts that stand in it, in document order. An expression that is not closed is
no node. Each level has a rank of its own, which falls from a node to its
children, so recursion over nodes ends.
-/

namespace KafkaScript

/-- The kinds of nodes. -/
inductive NodeKind where
  | document
  | producerBlock
  | consumerBlock
  | property
  | propertyKey
  | propertyValue
  | producerValue
  | consumerGroupId
  | expression
deriving DecidableEq, Repr, Inhabited

namespace NodeKind

/-- The name under which a kind is shown. -/
def name : NodeKind → Text
  | document => "Document".toList
  | producerBlock => "ProducerBlock".toList
  | consumerBlock => "ConsumerBlock".toList
  | property => "Property".toList
  | propertyKey => "PropertyKey".toList
  | propertyValue => "PropertyValue".toList
  | producerValue => "ProducerValue".toList
  | consumerGroupId => "ConsumerGroupId".toList
  | expression => "MustacheExpression".toList

/-- The kind of a chunk's node is its role. -/
def ofChunk : ChunkKind → NodeKind
  | .propertyKey => propertyKey
  | .propertyValue => propertyValue
  | .producerValue => producerValue
  | .consumerGroupId => consumerGroupId

/-- The kind of a block's node. -/
def ofBlock : BlockKind → NodeKind
  | .producer => producerBlock
  | .consumer => consumerBlock

instance : ToString NodeKind where
  toString k := String.ofList k.name

end NodeKind

/-- A value of the tree. -/
inductive Node where
  | script (s : Script)
  | block (b : Block)
  | property (p : Property)
  | text (c : TextChunk)
  | template (t : Template)
  | expression (e : Expression)
deriving DecidableEq, Repr, Inhabited

namespace Node

/-- The node of a property's value. -/
def ofChunk : Chunk → Node
  | .literal c => text c
  | .dynamic t => template t

/-- The kind of a node. -/
def kind : Node → NodeKind
  | script _ => .document
  | block b => .ofBlock b.kind
  | property _ => .property
  | text c => .ofChunk c.kind
  | template t => .ofChunk t.chunk.kind
  | expression _ => .expression

/-- Where a node stands. -/
def range : Node → Range
  | script s => s.range
  | block b => b.range
  | property p => p.range
  | text c => c.range
  | template t => t.chunk.range
  | expression e => e.range

/-- The text of a chunk's node. -/
def content? : Node → Option Text
  | text c => some c.content
  | template t => some t.chunk.content
  | _ => none

/-- The parts of a node in document order. -/
def children : Node → List Node
  | script s => s.blocks.map block
  | block (.producer b) => b.properties.map property ++ (b.value.map template).toList
  | block (.consumer b) => text b.groupId :: b.properties.map property
  | property p => (p.key.map text).toList ++ (p.value.map ofChunk).toList
  | template t => t.expressions.map expression
  | text _ => []
  | expression _ => []

/-- The last part of a node. -/
def lastChild? (n : Node) : Option Node :=
  n.children.getLast?

/-- The height of a node's level above the expressions. -/
def rank : Node → Nat
  | script _ => 4
  | block _ => 3
  | property _ => 2
  | template _ => 1
  | text _ => 0
  | expression _ => 0

theorem rank_lt_of_mem_children {n c : Node} (h : c ∈ n.children) : c.rank < n.rank := by
  cases n with
  | script s =>
    obtain ⟨b, _, rfl⟩ := List.mem_map.mp h
    simp [rank]
  | block b =>
    cases b with
    | producer b =>
      rcases List.mem_append.mp h with h | h
      · obtain ⟨p, _, rfl⟩ := List.mem_map.mp h
        simp [rank]
      · obtain ⟨t, _, rfl⟩ := Option.map_eq_some_iff.mp (Option.mem_toList.mp h)
        simp [rank]
    | consumer b =>
      rcases List.mem_cons.mp h with rfl | h
      · simp [rank]
      · obtain ⟨p, _, rfl⟩ := List.mem_map.mp h
        simp [rank]
  | property p =>
    rcases List.mem_append.mp h with h | h
    · obtain ⟨c, _, rfl⟩ := Option.map_eq_some_iff.mp (Option.mem_toList.mp h)
      simp [rank]
    · obtain ⟨v, _, rfl⟩ := Option.map_eq_some_iff.mp (Option.mem_toList.mp h)
      cases v <;> simp [ofChunk, rank]
  | template t =>
    obtain ⟨e, _, rfl⟩ := List.mem_map.mp h
    simp [rank]
  | text c => cases h
  | expression e => cases h

/-- A node and all nodes under it with their depths, each before its parts and
these in document order. -/
def preorder (depth : Nat) (n : Node) : List (Nat × Node) :=
  (depth, n) :: n.children.attach.flatMap fun ⟨c, _⟩ => preorder (depth + 1) c
termination_by n.rank
decreasing_by exact rank_lt_of_mem_children (by assumption)

/-- The nodes of the tree under a node, the node itself first. -/
def nodes (n : Node) : List Node :=
  (n.preorder 0).map (·.2)

end Node

end KafkaScript
