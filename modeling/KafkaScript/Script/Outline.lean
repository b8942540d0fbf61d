import KafkaScript.Script.Path
import KafkaScript.Text.Quoted

/-!
# Outlines

An outline shows a tree with one line for each node: its kind and range,
indented by its depth, and its text if it is a chunk. A property without an
assigner is marked, and an expression that is not closed has a line of its own
right after that of its chunk.
-/

namespace KafkaScript

namespace Node

/-- Two spaces for each level. -/
def indent (depth : Nat) : Text :=
  List.replicate (2 * depth) ' '

/-- What follows kind and range on the line of a node. -/
def remark (n : Node) : Text :=
  match n with
  | property p => if p.assigner.isNone then " (no assigner)".toList else []
  | _ => match n.content? with
    | some content => ' ' :: content.quoted
    | none => []

/-- The line of a node. -/
def outlineLine (depth : Nat) (n : Node) : Text :=
  indent depth ++ n.kind.name ++ ' ' :: n.range.display ++ n.remark ++ ['\n']

/-- The line of an expression that is not closed. -/
def unclosedLine (depth : Nat) (e : Expression) : Text :=
  indent depth ++ "unclosed ".toList ++ NodeKind.expression.name ++ ' ' :: e.range.display ++ ['\n']

/-- The expression that a node leaves open. -/
def unclosed? : Node → Option Expression
  | template t => t.unclosed
  | _ => none

/-- The outline of a node and all nodes under it. -/
def outline (n : Node) : Text :=
  (n.preorder 0).flatMap fun (depth, m) =>
    m.outlineLine depth ++ (m.unclosed?.map (unclosedLine (depth + 1))).getD []

end Node

/-- The outline of a script. -/
def Script.outline (s : Script) : Text :=
  (Node.script s).outline

/-- The lines of the nodes of a path, the root first. -/
def NodePath.outline (path : NodePath) : Text :=
  path.nodes.zipIdx.flatMap fun (n, depth) => n.outlineLine depth

end KafkaScript
