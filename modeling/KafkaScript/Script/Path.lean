import KafkaScript.Script.Node

/-!
# Finding the node before a position

The search starts at a node and goes down. At each level it takes the last part
that begins strictly before the position. It goes on into that part if the
position lies before the part's end, and also if the part's own last part
reaches that end: right after `key: value` the value is found, not the
property. The nodes passed on the way form the path.
-/

namespace KafkaScript

/-- The nodes from where a search began down to the one found. Each step holds
the index of a node among the parts of the one before it. -/
structure NodePath where
  root : Node
  steps : List (Nat × Node)
deriving DecidableEq, Repr, Inhabited

namespace Node

/-- The last part of a node that begins strictly before a position, with its
index among the parts. -/
def childBefore? (n : Node) (p : Position) : Option (Nat × Node) :=
  let before := n.children.takeWhile fun c => c.range.start < p
  before.getLast?.map fun c => (before.length - 1, c)

theorem mem_children_of_childBefore? {n c : Node} {p : Position} {i : Nat}
    (h : n.childBefore? p = some (i, c)) : c ∈ n.children := by
  obtain ⟨d, hd, heq⟩ := Option.map_eq_some_iff.mp h
  obtain ⟨_, rfl⟩ := Prod.mk.inj heq
  exact (List.takeWhile_sublist _).subset (List.mem_of_getLast? hd)

/-- Whether a search for the position goes on into this node. -/
def reaches (n : Node) (p : Position) : Bool :=
  p < n.range.stop || n.lastChild?.any fun c => c.range.stop == n.range.stop

/-- The steps of the search from this node down. -/
def stepsBefore (n : Node) (p : Position) : List (Nat × Node) :=
  match _ : n.childBefore? p with
  | none => []
  | some (i, c) => (i, c) :: if c.reaches p then stepsBefore c p else []
termination_by n.rank
decreasing_by exact rank_lt_of_mem_children (mem_children_of_childBefore? (by assumption))

/-- The path to the innermost node that encloses a position or stands right
before it. -/
def findBefore (n : Node) (p : Position) : NodePath :=
  ⟨n, n.stepsBefore p⟩

end Node

namespace NodePath

/-- The nodes of the path, the root first. -/
def nodes (path : NodePath) : List Node :=
  path.root :: path.steps.map (·.2)

/-- The index taken at each step. -/
def indices (path : NodePath) : List Nat :=
  path.steps.map (·.1)

/-- The node found. -/
def node (path : NodePath) : Node :=
  (path.steps.getLast?.map (·.2)).getD path.root

/-- Number of steps from the root. -/
def depth (path : NodePath) : Nat :=
  path.steps.length

/-- The nodes above the one found, the nearest first. -/
def ancestors (path : NodePath) : List Node :=
  path.nodes.dropLast.reverse

/-- The node right above the one found. -/
def parent? (path : NodePath) : Option Node :=
  path.ancestors.head?

/-- The nearest block on the path, the node found included. -/
def block? (path : NodePath) : Option Block :=
  path.nodes.reverse.findSome? fun
    | .block b => some b
    | _ => none

/-- The nearest property on the path, the node found included. -/
def property? (path : NodePath) : Option Property :=
  path.nodes.reverse.findSome? fun
    | .property p => some p
    | _ => none

/-- A path is shown as its nodes' kinds and ranges with `>` between them. -/
def display (path : NodePath) : Text :=
  Text.join " > ".toList (path.nodes.map fun n => n.kind.name ++ ' ' :: n.range.display)

end NodePath

/-- The path to the innermost node of a script that encloses a position or
stands right before it. -/
def Script.findBefore (s : Script) (p : Position) : NodePath :=
  (Node.script s).findBefore p

end KafkaScript
