import KafkaScript.Script.Outline

/-!
# Well-nested trees

In a well-nested tree no range is inverted, every node lies within its parent,
siblings follow each other without overlap, and an expression that is not
closed lies within its chunk after every closed one. The check looks at one
node and its parts at a time and reports the first violation in document order.
-/

namespace KafkaScript

/-- A way in which a node and its parts fail to be well nested. -/
inductive NestingViolation where
  /-- The node's range ends before it starts. -/
  | inverted (kind : NodeKind) (range : Range)
  /-- A part leaves its node. -/
  | escapes (child : NodeKind) (childRange : Range) (parent : NodeKind) (parentRange : Range)
  /-- A part begins before the one in front of it ends. -/
  | overlap (first : NodeKind) (firstRange : Range) (second : NodeKind) (secondRange : Range)
  /-- The open expression leaves its chunk. -/
  | unclosedEscapes (unclosed chunk : Range)
  /-- The open expression begins before the last closed one ends. -/
  | unclosedPrecedes (unclosed last : Range)
deriving DecidableEq, Repr

/-- The wording of a violation. -/
def NestingViolation.message : NestingViolation → String
  | .inverted kind range => s!"{kind} range is inverted: {range}"
  | .escapes child childRange parent parentRange =>
    s!"{child} {childRange} escapes parent {parent} {parentRange}"
  | .overlap first firstRange second secondRange =>
    s!"siblings overlap or are out of order: {first} {firstRange} then {second} {secondRange}"
  | .unclosedEscapes unclosed chunk => s!"unclosed expression {unclosed} escapes chunk {chunk}"
  | .unclosedPrecedes unclosed last => s!"unclosed expression {unclosed} precedes closed {last}"

namespace Node

/-- The first part that leaves its node. -/
def escape? (n : Node) : Option NestingViolation :=
  (n.children.find? fun c => !n.range.encloses c.range).map fun c =>
    .escapes c.kind c.range n.kind n.range

/-- The first part that begins before the one in front of it ends. -/
def overlap? : List Node → Option NestingViolation
  | a :: b :: rest =>
    if a.range.stop ≤ b.range.start then overlap? (b :: rest)
    else some (.overlap a.kind a.range b.kind b.range)
  | _ => none

/-- Whether an open expression stands where it may. -/
def unclosedViolation? (n : Node) (e : Expression) : Option NestingViolation :=
  if !n.range.encloses e.range then some (.unclosedEscapes e.range n.range)
  else match n.lastChild? with
    | some last =>
      if last.range.stop ≤ e.range.start then none
      else some (.unclosedPrecedes e.range last.range)
    | none => none

/-- What is wrong with a node and its parts, those under its parts left aside. -/
def localViolation? (n : Node) : Option NestingViolation :=
  if n.range.start ≤ n.range.stop then
    n.escape? <|> overlap? n.children <|> n.unclosed?.bind n.unclosedViolation?
  else some (.inverted n.kind n.range)

/-- The first violation in the tree under a node. -/
def violation? (n : Node) : Option NestingViolation :=
  n.nodes.findSome? localViolation?

end Node

/-- Checks that a script is well nested. -/
def Script.checkNesting (s : Script) : Except NestingViolation Unit :=
  match (Node.script s).violation? with
  | some v => .error v
  | none => .ok ()

end KafkaScript
