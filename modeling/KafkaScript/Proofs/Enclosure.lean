import Mathlib.Data.List.Chain
import Mathlib.Data.List.Pairwise
import KafkaScript.Proofs.Nesting

/-!
# What the check says of the whole tree

The check compares a node with its parts and each part with the next one. Yet it decides
how any two nodes of the tree lie to each other (`Node.NestedThroughout`): a node
encloses all that stand under it, and of two nodes neither of which stands under the
other the first ends before the second begins. Nodes are told apart by their places,
since equal nodes may occur in a tree more than once.

The argument follows the tree. A tree is nested throughout if its root is as the check
asks and the trees under the root's parts are nested throughout
(`Node.NestedThroughout.of_parts`): what stands under a part lies within that part, and
parts that follow one after the next follow each other, because none is inverted
(`Node.Checked.pairwise_parts`). The other way round, what is asked of nodes anywhere is
asked of a node and its parts (`Node.NestedThroughout.checked`).
-/

namespace KafkaScript

namespace Range

variable {r s t : Range}

theorem encloses_self (r : Range) : r.encloses r = true :=
  encloses_iff.mpr ⟨le_refl _, le_refl _⟩

theorem encloses_trans (hrs : r.encloses s = true) (hst : s.encloses t = true) :
    r.encloses t = true := by
  rw [encloses_iff] at *
  exact ⟨le_trans hrs.1 hst.1, le_trans hst.2 hrs.2⟩

end Range

/-- A node with its place in a tree: the index of the part to take at each step on the
way down from the root. -/
structure PlacedNode where
  place : List Nat
  node : Node
deriving DecidableEq, Repr

namespace PlacedNode

/-- The second node stands under the first one. A node is taken to stand under itself. -/
def IsAbove (x y : PlacedNode) : Prop :=
  x.place <+: y.place

/-- The same node in a larger tree, in which its root is the part with this index. -/
def under (i : Nat) (x : PlacedNode) : PlacedNode :=
  ⟨i :: x.place, x.node⟩

/-- The first node ends before the second one begins, unless one of them stands under the
other. -/
def Apart (x y : PlacedNode) : Prop :=
  ¬ x.IsAbove y → ¬ y.IsAbove x → x.node.range.stop ≤ y.node.range.start

variable {i j : Nat} {x y : PlacedNode}

theorem isAbove_root (n : Node) (x : PlacedNode) : IsAbove ⟨[], n⟩ x :=
  List.nil_prefix

theorem isAbove_under_iff : (x.under i).IsAbove (y.under j) ↔ i = j ∧ x.IsAbove y :=
  List.cons_prefix_cons

theorem not_under_isAbove_root {n : Node} : ¬ (x.under i).IsAbove ⟨[], n⟩ := by
  simp [IsAbove, under]

theorem apart_root (n : Node) (x : PlacedNode) : Apart ⟨[], n⟩ x :=
  fun hnot => absurd (isAbove_root n x) hnot

theorem apart_under_iff : (x.under i).Apart (y.under i) ↔ x.Apart y := by
  simp only [Apart, isAbove_under_iff, true_and]
  rfl

end PlacedNode

namespace Node

/-- The nodes of the tree under a node with their places, each before its parts and
these in document order. -/
def placed (n : Node) : List PlacedNode :=
  ⟨[], n⟩ :: n.children.zipIdx.attach.flatMap fun ⟨(c, i), _⟩ => (placed c).map (.under i)
termination_by n.rank
decreasing_by exact rank_lt_of_mem_children (List.fst_mem_of_mem_zipIdx (by assumption))

/-- The node at a place. -/
def nodeAt? (n : Node) : List Nat → Option Node
  | [] => some n
  | i :: place => n.children[i]?.bind (·.nodeAt? place)

/-- The check's conditions for all nodes of a tree and not only for a node and its parts. -/
structure NestedThroughout (root : Node) : Prop where
  ordered : ∀ x ∈ root.placed, x.node.range.start ≤ x.node.range.stop
  enclosed : ∀ x ∈ root.placed, ∀ y ∈ root.placed, x.IsAbove y →
    x.node.range.encloses y.node.range = true
  /-- This is asked of any two nodes, in the order in which the list has them. -/
  apart : root.placed.Pairwise PlacedNode.Apart
  /-- An open expression is enclosed by its chunk and by all that the chunk stands under. -/
  unclosed_enclosed : ∀ x ∈ root.placed, ∀ y ∈ root.placed, x.IsAbove y →
    ∀ e ∈ y.node.unclosed?, x.node.range.encloses e.range = true
  /-- The parts of a chunk are its closed expressions. -/
  unclosed_behind : ∀ x ∈ root.placed, ∀ e ∈ x.node.unclosed?, ∀ c ∈ x.node.children,
    c.range.stop ≤ e.range.start

/-! ## Places -/

variable {n c : Node} {x : PlacedNode}

theorem placed_eq (n : Node) :
    n.placed = ⟨[], n⟩ :: n.children.zipIdx.flatMap fun p => p.1.placed.map (.under p.2) := by
  rw [placed, List.flatMap_subtype (g := fun p => p.1.placed.map (.under p.2)) fun _ _ => rfl,
    List.unattach_attach]

theorem mem_placed_iff : x ∈ n.placed ↔ x = ⟨[], n⟩ ∨
    ∃ (i : Nat) (c : Node), n.children[i]? = some c ∧ ∃ y ∈ c.placed, y.under i = x := by
  rw [placed_eq, List.mem_cons, List.mem_flatMap]
  simp only [Prod.exists, List.mem_zipIdx_iff_getElem?, List.mem_map]
  rw [exists_comm]

theorem root_mem_placed (n : Node) : ⟨[], n⟩ ∈ n.placed :=
  mem_placed_iff.mpr (.inl rfl)

theorem under_mem_placed {i : Nat} (hc : n.children[i]? = some c) (hx : x ∈ c.placed) :
    x.under i ∈ n.placed :=
  mem_placed_iff.mpr (.inr ⟨i, c, hc, x, hx, rfl⟩)

/-- Without their places these are the nodes of the tree in their order. -/
theorem map_node_placed (n : Node) : n.placed.map PlacedNode.node = n.nodes := by
  induction n using placed.induct with
  | case1 n ih =>
    have hparts : ∀ p ∈ n.children.zipIdx,
        (p.1.placed.map (PlacedNode.under p.2)).map PlacedNode.node = p.1.nodes := by
      intro p hp
      rw [List.map_map]
      exact ih p.1 p.2 hp
    rw [placed_eq, nodes_eq, List.map_cons, List.map_flatMap, List.flatMap_congr hparts]
    conv_rhs => rw [← List.zipIdx_map_fst 0 n.children, List.flatMap_map]

/-- At a place stands one node. -/
theorem mem_placed_iff_nodeAt? : x ∈ n.placed ↔ n.nodeAt? x.place = some x.node := by
  obtain ⟨place, m⟩ := x
  induction place generalizing n with
  | nil =>
    rw [mem_placed_iff]
    simp [nodeAt?, PlacedNode.under, eq_comm]
  | cons i place ih =>
    rw [mem_placed_iff, nodeAt?, Option.bind_eq_some_iff]
    constructor
    · rintro (hroot | ⟨j, c, hc, y, hy, heq⟩)
      · simp at hroot
      · obtain ⟨⟨rfl, rfl⟩, rfl⟩ : (j = i ∧ y.place = place) ∧ y.node = m := by
          simpa [PlacedNode.under] using heq
        exact ⟨c, hc, ih.mp hy⟩
    · rintro ⟨c, hc, hat⟩
      exact .inr ⟨i, c, hc, ⟨place, m⟩, ih.mpr hat, rfl⟩

/-- Nodes of a tree lie apart if those under each part of the root do, and those under
different parts. -/
theorem pairwise_placed_iff : n.placed.Pairwise PlacedNode.Apart ↔
    (∀ p ∈ n.children.zipIdx, p.1.placed.Pairwise PlacedNode.Apart) ∧
      n.children.zipIdx.Pairwise fun p q => ∀ x ∈ p.1.placed, ∀ y ∈ q.1.placed,
        (x.under p.2).Apart (y.under q.2) := by
  rw [placed_eq, List.pairwise_cons, List.pairwise_flatMap,
    and_iff_right fun x _ => PlacedNode.apart_root n x]
  simp only [List.pairwise_map, PlacedNode.apart_under_iff, List.forall_mem_map]

/-! ## From parts to the tree -/

/-- Parts that are not inverted follow each other if each follows the one before it. -/
theorem pairwise_of_isChain {ns : List Node}
    (hordered : ∀ c ∈ ns, c.range.start ≤ c.range.stop)
    (h : ns.IsChain fun a b => a.range.stop ≤ b.range.start) :
    ns.Pairwise fun a b => a.range.stop ≤ b.range.start := by
  induction ns with
  | nil => exact .nil
  | cons a ns ih =>
    have htail := ih (fun c hc => hordered c (List.mem_cons_of_mem a hc)) h.tail
    refine List.pairwise_cons.mpr ⟨?_, htail⟩
    cases ns with
    | nil => simp
    | cons b ns =>
      have hnext : a.range.stop ≤ b.range.start := (List.isChain_cons_cons.mp h).1
      intro c hc
      rcases List.mem_cons.mp hc with rfl | hc
      · exact hnext
      · have hb := hordered b (List.mem_cons_of_mem a List.mem_cons_self)
        exact le_trans hnext (le_trans hb ((List.pairwise_cons.mp htail).1 c hc))

/-- The parts of a node that the check lets pass follow each other if none is inverted. -/
theorem Checked.pairwise_parts (h : n.Checked)
    (hordered : ∀ c ∈ n.children, c.range.start ≤ c.range.stop) :
    n.children.Pairwise fun a b => a.range.stop ≤ b.range.start :=
  pairwise_of_isChain hordered h.parts_chained

/-- What stands at a node is enclosed by all nodes above it if what stands at the root is
enclosed by the root, and the same is true of the trees under the root's parts. -/
theorem encloses_of_parts (Stands : Node → Range → Prop) (h : n.Checked)
    (hroot : ∀ r, Stands n r → n.range.encloses r = true)
    (hparts : ∀ c ∈ n.children, ∀ x ∈ c.placed, ∀ y ∈ c.placed, x.IsAbove y →
      ∀ r, Stands y.node r → x.node.range.encloses r = true) :
    ∀ x ∈ n.placed, ∀ y ∈ n.placed, x.IsAbove y →
      ∀ r, Stands y.node r → x.node.range.encloses r = true := by
  intro x hx y hy habove r hr
  rcases mem_placed_iff.mp hy with rfl | ⟨j, d, hd, y', hy', rfl⟩
  · rcases mem_placed_iff.mp hx with rfl | ⟨i, c, -, x', -, rfl⟩
    · exact hroot r hr
    · exact absurd habove PlacedNode.not_under_isAbove_root
  · have hmem := List.mem_of_getElem? hd
    rcases mem_placed_iff.mp hx with rfl | ⟨i, c, hc, x', hx', rfl⟩
    · have hpart := hparts d hmem _ (root_mem_placed d) y' hy' (PlacedNode.isAbove_root d y') r hr
      exact Range.encloses_trans (h.parts_enclosed d hmem) hpart
    · obtain ⟨rfl, habove'⟩ := PlacedNode.isAbove_under_iff.mp habove
      obtain rfl : c = d := Option.some.inj (hc.symm.trans hd)
      exact hparts c hmem x' hx' y' hy' habove' r hr

/-- An open expression begins behind all parts of its node if it does behind the last. -/
theorem Checked.unclosed_behind_parts (h : n.Checked)
    (hordered : ∀ c ∈ n.children, c.range.start ≤ c.range.stop) :
    ∀ e ∈ n.unclosed?, ∀ c ∈ n.children, c.range.stop ≤ e.range.start := by
  intro e he c hc
  have hfollow := h.pairwise_parts hordered
  have hne : n.children ≠ [] := List.ne_nil_of_mem hc
  have hlast : n.children.getLast hne ∈ n.lastChild? := List.getLast?_eq_some_getLast hne
  have hbehind := h.unclosed_behind e he _ hlast
  rw [← List.dropLast_concat_getLast hne] at hc hfollow
  rcases List.mem_append.mp hc with hfront | hself
  · -- the parts in front of the last one end before it begins
    have hstop := (List.pairwise_append.mp hfollow).2.2 c hfront _ List.mem_cons_self
    exact le_trans hstop (le_trans (hordered _ (List.getLast_mem hne)) hbehind)
  · rw [List.mem_singleton.mp hself]
    exact hbehind

namespace NestedThroughout

/-- The root encloses the whole tree. -/
theorem encloses (h : n.NestedThroughout) (hx : x ∈ n.placed) :
    n.range.encloses x.node.range = true :=
  h.enclosed _ (root_mem_placed n) x hx (PlacedNode.isAbove_root n x)

/-- Nodes under different parts keep the order of these. -/
theorem pairwise_apart (h : n.Checked) (hparts : ∀ c ∈ n.children, c.NestedThroughout) :
    n.placed.Pairwise PlacedNode.Apart := by
  have hfollow := h.pairwise_parts fun c hc => (hparts c hc).ordered _ (root_mem_placed c)
  rw [← List.zipIdx_map_fst 0 n.children, List.pairwise_map] at hfollow
  have hpart : ∀ p ∈ n.children.zipIdx, p.1.NestedThroughout := fun p hp =>
    hparts p.1 (List.fst_mem_of_mem_zipIdx hp)
  refine pairwise_placed_iff.mpr ⟨fun p hp => (hpart p hp).apart, ?_⟩
  refine hfollow.imp_of_mem fun {p q} hp hq hpq => ?_
  intro x hx y hy _ _
  have hxp := (hpart p hp).encloses hx
  have hyq := (hpart q hq).encloses hy
  rw [Range.encloses_iff] at hxp hyq
  exact le_trans hxp.2 (le_trans hpq hyq.1)

theorem of_parts (h : n.Checked) (hparts : ∀ c ∈ n.children, c.NestedThroughout) :
    n.NestedThroughout where
  ordered x hx := by
    rcases mem_placed_iff.mp hx with rfl | ⟨i, c, hc, y, hy, rfl⟩
    · exact h.ordered
    · exact (hparts c (List.mem_of_getElem? hc)).ordered y hy
  enclosed x hx y hy habove := by
    refine encloses_of_parts (fun m r => r = m.range) h ?_ ?_ x hx y hy habove _ rfl
    · rintro r rfl
      exact Range.encloses_self _
    · rintro c hc x hx y hy habove r rfl
      exact (hparts c hc).enclosed x hx y hy habove
  apart := pairwise_apart h hparts
  unclosed_enclosed x hx y hy habove e he := by
    refine encloses_of_parts (fun m r => ∃ e ∈ m.unclosed?, r = e.range) h ?_ ?_ x hx y hy habove
      _ ⟨e, he, rfl⟩
    · rintro r ⟨e, he, rfl⟩
      exact h.unclosed_enclosed e he
    · rintro c hc x hx y hy habove r ⟨e, he, rfl⟩
      exact (hparts c hc).unclosed_enclosed x hx y hy habove e he
  unclosed_behind x hx := by
    rcases mem_placed_iff.mp hx with rfl | ⟨i, c, hc, y, hy, rfl⟩
    · exact h.unclosed_behind_parts fun c hc => (hparts c hc).ordered _ (root_mem_placed c)
    · exact (hparts c (List.mem_of_getElem? hc)).unclosed_behind y hy

/-! ## From the tree to its parts -/

theorem part (h : n.NestedThroughout) (hc : c ∈ n.children) : c.NestedThroughout := by
  obtain ⟨i, hi⟩ := List.mem_iff_getElem?.mp hc
  have hplaced : ∀ x ∈ c.placed, x.under i ∈ n.placed := fun x hx => under_mem_placed hi hx
  have habove : ∀ x y : PlacedNode, x.IsAbove y → (x.under i).IsAbove (y.under i) :=
    fun x y hxy => PlacedNode.isAbove_under_iff.mpr ⟨rfl, hxy⟩
  have hpart := (pairwise_placed_iff.mp h.apart).1 (c, i) (List.mem_zipIdx_iff_getElem?.mpr hi)
  exact {
    ordered := fun x hx => h.ordered (x.under i) (hplaced x hx)
    enclosed := fun x hx y hy hxy =>
      h.enclosed (x.under i) (hplaced x hx) (y.under i) (hplaced y hy) (habove x y hxy)
    apart := hpart
    unclosed_enclosed := fun x hx y hy hxy =>
      h.unclosed_enclosed (x.under i) (hplaced x hx) (y.under i) (hplaced y hy) (habove x y hxy)
    unclosed_behind := fun x hx => h.unclosed_behind (x.under i) (hplaced x hx) }

/-- Parts stand at places of their own, none under another one. -/
theorem isChain_children (h : n.NestedThroughout) :
    n.children.IsChain fun a b => a.range.stop ≤ b.range.start := by
  have happart := (pairwise_placed_iff.mp h.apart).2
  have hindex : n.children.zipIdx.Pairwise fun p q => p.2 < q.2 := by
    rw [← List.pairwise_map (f := Prod.snd), List.zipIdx_map_snd]
    exact List.pairwise_lt_range' 1
  rw [← List.zipIdx_map_fst 0 n.children]
  refine List.Pairwise.isChain (List.pairwise_map.mpr ?_)
  refine (happart.and hindex).imp fun {p q} hpq => ?_
  obtain ⟨hpq, hlt⟩ := hpq
  refine hpq _ (root_mem_placed p.1) _ (root_mem_placed q.1) ?_ ?_
  · exact fun habove => absurd (PlacedNode.isAbove_under_iff.mp habove).1 (by omega)
  · exact fun habove => absurd (PlacedNode.isAbove_under_iff.mp habove).1 (by omega)

/-- What is asked of the whole tree is asked of its root. -/
theorem checked (h : n.NestedThroughout) : n.Checked where
  ordered := h.ordered _ (root_mem_placed n)
  parts_enclosed c hc := by
    obtain ⟨i, hi⟩ := List.mem_iff_getElem?.mp hc
    exact h.encloses (under_mem_placed hi (root_mem_placed c))
  parts_chained := h.isChain_children
  unclosed_enclosed e he :=
    h.unclosed_enclosed _ (root_mem_placed n) _ (root_mem_placed n) (PlacedNode.isAbove_root n _)
      e he
  unclosed_behind e he last hlast :=
    h.unclosed_behind _ (root_mem_placed n) e he last (List.mem_of_getLast? hlast)

end NestedThroughout

/-- A tree is nested throughout if every node of it is as the check asks. -/
theorem nestedThroughout_iff : n.NestedThroughout ↔ ∀ m ∈ n.nodes, m.Checked := by
  constructor
  · intro h m hm
    exact (forall_mem_nodes (fun _ hn _ hc => hn.part hc) h m hm).checked
  · intro h
    induction n using placed.induct with
    | case1 n ih =>
      rw [nodes_eq, List.forall_mem_cons] at h
      refine .of_parts h.1 fun c hc => ?_
      obtain ⟨i, hi⟩ := List.mem_iff_getElem?.mp hc
      exact ih c i (List.mem_zipIdx_iff_getElem?.mpr hi) fun m hm =>
        h.2 m (List.mem_flatMap.mpr ⟨c, hc, hm⟩)

end Node

/-- A script, wherever it comes from, passes the check exactly if its tree is nested
throughout. That is said of the nodes of the tree in their order, each at the place
where a walk down from the root finds it. -/
theorem Script.checkNesting_iff_nestedThroughout (s : Script) :
    (Node.script s).placed.map PlacedNode.node = (Node.script s).nodes ∧
      (∀ x, x ∈ (Node.script s).placed ↔ (Node.script s).nodeAt? x.place = some x.node) ∧
      (s.checkNesting = .ok () ↔ (Node.script s).NestedThroughout) :=
  ⟨Node.map_node_placed _, fun _ => Node.mem_placed_iff_nodeAt?,
    checkNesting_eq_ok_iff.trans Node.nestedThroughout_iff.symm⟩

/-- The chunk itself counts: this open expression leaves its chunk, though not the block. -/
example :
    let line : Range := ⟨⟨0, 0⟩, ⟨0, 9⟩⟩
    let chunk : TextChunk := ⟨"\x7b\x7ba".toList, ⟨⟨0, 0⟩, ⟨0, 3⟩⟩, .producerValue⟩
    Script.checkNesting ⟨line, [.producer ⟨line, [], some ⟨chunk, [], some ⟨line, line, false⟩⟩⟩]⟩ =
      .error (.unclosedEscapes line chunk.range) := by
  decide +kernel

end KafkaScript
