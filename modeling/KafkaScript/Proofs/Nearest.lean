import KafkaScript.Proofs.Navigation

/-!
# The node found is the nearest one

A search for the node before a position looks at one part of each node on its way,
yet what it finds is the nearest of all nodes of the tree. At each level the parts that
begin before the position stand in front of those that do not
(`Node.Nested.pairwise_start_lt`), so the part taken is the last of them
(`Node.start_lt_iff_of_childBefore?`). A node that the search does not come by is under
a part in front of the one taken, and ends before that one begins, or under a part
behind it, and begins no earlier than the position (`Node.apart_stepsBefore`).
-/

namespace KafkaScript

/-- If what has a property stands in front of what has not, the elements with the
property are those of the front. -/
theorem sat_iff_lt_length_takeWhile {α : Type} {P : α → Bool} {l : List α}
    (hfront : l.Pairwise fun a b => P b = true → P a = true) {j : Nat} {a : α}
    (ha : l[j]? = some a) : P a = true ↔ j < (l.takeWhile P).length := by
  induction l generalizing j with
  | nil => simp at ha
  | cons b l ih =>
    obtain ⟨hb, hl⟩ := List.pairwise_cons.mp hfront
    by_cases hP : P b = true
    · rw [List.takeWhile_cons_of_pos hP, List.length_cons]
      cases j with
      | zero =>
        obtain rfl : b = a := by simpa using ha
        simp [hP]
      | succ j => rw [ih hl (by simpa using ha), Nat.add_lt_add_iff_right]
    · rw [List.takeWhile_cons_of_neg hP]
      refine iff_of_false ?_ (Nat.not_lt_zero j)
      cases j with
      | zero =>
        obtain rfl : b = a := by simpa using ha
        exact hP
      | succ j =>
        have hmem : a ∈ l := List.mem_of_getElem? (by simpa using ha)
        exact fun hPa => hP (hb a hmem hPa)

theorem NodePath.node_cons (n : Node) (step : Nat × Node) (steps : List (Nat × Node)) :
    (mk n (step :: steps)).node = (mk step.2 steps).node := by
  rw [node, node, List.getLast?_cons]
  cases steps.getLast? <;> rfl

theorem NodePath.node_concat (n : Node) (steps : List (Nat × Node)) (step : Nat × Node) :
    (mk n (steps ++ [step])).node = step.2 := by
  rw [node, List.getLast?_concat]
  rfl

namespace Node

/-! ## One level -/

section Level

variable {n c a : Node} {p : Position} {i j : Nat}

/-- What begins before the position stands in front of what does not. -/
theorem Nested.pairwise_start_lt (h : n.Nested) (p : Position) : n.children.Pairwise fun a b =>
    decide (b.range.start < p) = true → decide (a.range.start < p) = true := by
  refine h.parts_follow.imp_of_mem ?_
  intro a b ha hb hab hlt
  rw [decide_eq_true_eq] at hlt ⊢
  exact lt_of_le_of_lt (le_trans (h.parts_inside a ha).ordered hab) hlt

/-- The part taken is the last one that begins before the position. -/
theorem start_lt_iff_of_childBefore? (h : n.Nested) (hc : n.childBefore? p = some (i, c))
    (ha : n.children[j]? = some a) : a.range.start < p ↔ j ≤ i := by
  obtain ⟨d, hd, heq⟩ := Option.map_eq_some_iff.mp hc
  obtain ⟨rfl, rfl⟩ := Prod.mk.inj heq
  have hpos : 0 < (n.children.takeWhile fun c => c.range.start < p).length :=
    List.length_pos_of_mem (List.mem_of_getLast? hd)
  have hiff := sat_iff_lt_length_takeWhile (h.pairwise_start_lt p) ha
  rw [decide_eq_true_eq] at hiff
  rw [hiff]
  omega

/-- No part is taken if none begins before the position. -/
theorem le_start_of_childBefore?_none (h : n.Nested) (hnone : n.childBefore? p = none)
    (ha : a ∈ n.children) : p ≤ a.range.start := by
  rw [childBefore?, Option.map_eq_none_iff, List.getLast?_eq_none_iff] at hnone
  obtain ⟨j, hj⟩ := List.mem_iff_getElem?.mp ha
  have hiff := sat_iff_lt_length_takeWhile (h.pairwise_start_lt p) hj
  rw [decide_eq_true_eq, hnone] at hiff
  exact le_of_not_gt fun hlt => absurd (hiff.mp hlt) (Nat.not_lt_zero j)

theorem Nested.stop_le_start (h : n.Nested) (hj : n.children[j]? = some a)
    (hi : n.children[i]? = some c) (hlt : j < i) : a.range.stop ≤ c.range.start := by
  obtain ⟨hjlen, rfl⟩ := List.getElem?_eq_some_iff.mp hj
  obtain ⟨hilen, rfl⟩ := List.getElem?_eq_some_iff.mp hi
  exact List.pairwise_iff_getElem.mp h.parts_follow j i hjlen hilen hlt

end Level

/-! ## Ways down -/

/-- All that a way leads through lies in the part that it leads to first. -/
theorem IsDescent.inside_first {t : Text} {catalog : Catalog} {n a : Node} {k : Nat}
    {way : List (Nat × Node)} (hn : n.ReadFrom t catalog) (h : n.IsDescent ((k, a) :: way)) :
    ∀ step ∈ (k, a) :: way, step.2.range.Inside a.range := by
  have ha := List.mem_of_getElem? h.1
  induction way generalizing n a k with
  | nil =>
    intro step hstep
    obtain rfl := List.mem_singleton.mp hstep
    exact .self (hn.nested.parts_inside a ha).ordered
  | cons next way ih =>
    intro step hstep
    rcases List.mem_cons.mp hstep with rfl | hstep
    · exact .self (hn.nested.parts_inside a ha).ordered
    · have hread := hn.children a ha
      have hnext := List.mem_of_getElem? h.2.1
      exact (ih hread h.2 hnext step hstep).trans (hread.nested.parts_inside _ hnext)

/-- A way leads to a node of the tree. -/
theorem IsDescent.mem_nodes {n : Node} {way : List (Nat × Node)} (h : n.IsDescent way) :
    (NodePath.mk n way).node ∈ n.nodes := by
  induction way generalizing n with
  | nil =>
    rw [nodes_eq]
    exact List.mem_cons_self
  | cons step way ih =>
    rw [NodePath.node_cons, nodes_eq]
    exact List.mem_cons_of_mem n
      (List.mem_flatMap.mpr ⟨step.2, List.mem_of_getElem? h.1, ih h.2⟩)

/-- What a way leads to stands under the nodes that it leads through. -/
theorem IsDescent.mem_nodes_of_prefix {n : Node} {front way : List (Nat × Node)}
    (h : n.IsDescent way) (hfront : front <+: way) :
    (NodePath.mk n way).node ∈ (NodePath.mk n front).node.nodes := by
  obtain ⟨rest, rfl⟩ := hfront
  induction front generalizing n with
  | nil => exact h.mem_nodes
  | cons step front ih =>
    rw [List.cons_append, NodePath.node_cons, NodePath.node_cons]
    exact ih h.2

/-! ## The node found -/

section Found

variable {n c : Node} {p : Position} {i : Nat}

theorem node_findBefore_of_none (h : n.childBefore? p = none) : (n.findBefore p).node = n := by
  rw [findBefore, stepsBefore_of_none h]
  rfl

theorem node_findBefore_of_some (h : n.childBefore? p = some (i, c)) :
    (n.findBefore p).node = if c.reaches p then (c.findBefore p).node else c := by
  rw [findBefore, stepsBefore_of_some h, NodePath.node_cons]
  split
  · rfl
  · rfl

/-- What is found is no higher in the tree than the node that the search starts at. -/
theorem rank_node_findBefore_le (n : Node) (p : Position) : (n.findBefore p).node.rank ≤ n.rank := by
  induction n using stepsBefore.induct p with
  | case1 n hnone => rw [node_findBefore_of_none hnone]
  | case2 n i c hsome ih =>
    have hlt := rank_lt_of_mem_children (mem_children_of_childBefore? hsome)
    rw [node_findBefore_of_some hsome]
    split
    · exact le_trans ih (le_of_lt hlt)
    · exact le_of_lt hlt

/-- The node that the search starts at is found only if the search takes no part. -/
theorem childBefore?_of_node_eq (h : (n.findBefore p).node = n) : n.childBefore? p = none := by
  cases hc : n.childBefore? p with
  | none => rfl
  | some step =>
    obtain ⟨i, c⟩ := step
    have hlt := rank_lt_of_mem_children (mem_children_of_childBefore? hc)
    have hle := rank_node_findBefore_le c p
    rw [node_findBefore_of_some hc] at h
    split at h
    · rw [h] at hle
      omega
    · rw [h] at hlt
      omega

/-- What is found begins no earlier than the node that the search starts at. -/
theorem start_le_start_node {t : Text} {catalog : Catalog} {n : Node} (hn : n.ReadFrom t catalog)
    (p : Position) : n.range.start ≤ (n.findBefore p).node.range.start := by
  induction n using stepsBefore.induct p with
  | case1 n hnone => rw [node_findBefore_of_none hnone]
  | case2 n i c hsome ih =>
    have hmem := mem_children_of_childBefore? hsome
    have hstart := (hn.nested.parts_inside c hmem).le_start
    rw [node_findBefore_of_some hsome]
    split
    · exact le_trans hstart (ih (hn.children c hmem))
    · exact hstart

/-- A node lies on the way that the search takes or below its end, or else it ends
before what is found begins, or begins no earlier than the position. -/
theorem apart_stepsBefore {t : Text} {catalog : Catalog} {n : Node} (hn : n.ReadFrom t catalog)
    (p : Position) {way : List (Nat × Node)} (h : n.IsDescent way) {step : Nat × Node}
    (hlast : way.getLast? = some step) :
    way <+: n.stepsBefore p ∨ n.stepsBefore p <+: way ∨
      step.2.range.stop ≤ (n.findBefore p).node.range.start ∨ p ≤ step.2.range.start := by
  induction n using stepsBefore.induct p generalizing way with
  | case1 n hnone =>
    rw [stepsBefore_of_none hnone]
    exact .inr (.inl List.nil_prefix)
  | case2 n i c hsome ih =>
    cases way with
    | nil => contradiction
    | cons first rest =>
      obtain ⟨k, a⟩ := first
      have hinside := h.inside_first hn step (List.mem_of_getLast? hlast)
      have hc := (getElem?_of_childBefore? hsome).1
      have hread := hn.children c (List.mem_of_getElem? hc)
      rcases Nat.lt_trichotomy k i with hlt | rfl | hgt
      · -- the way turns off in front of the part that the search takes
        have hstop := le_trans hinside.stop_le (hn.nested.stop_le_start h.1 hc hlt)
        refine .inr (.inr (.inl (le_trans hstop ?_)))
        rw [node_findBefore_of_some hsome]
        split
        · exact start_le_start_node hread p
        · exact le_refl _
      · -- the way goes through that part
        obtain rfl : a = c := Option.some.inj (h.1.symm.trans hc)
        rw [stepsBefore_of_some hsome, node_findBefore_of_some hsome]
        split
        · next hreaches =>
          cases rest with
          | nil => exact .inl (List.cons_prefix_cons.mpr ⟨rfl, List.nil_prefix⟩)
          | cons next rest =>
            rw [List.cons_prefix_cons, List.cons_prefix_cons, and_iff_right rfl, and_iff_right rfl]
            exact ih hread h.2 hlast
        · exact .inr (.inl (List.cons_prefix_cons.mpr ⟨rfl, List.nil_prefix⟩))
      · -- the way turns off behind that part
        have hafter := (start_lt_iff_of_childBefore? hn.nested hsome h.1).not.mpr (by omega)
        exact .inr (.inr (.inr (le_trans (le_of_not_gt hafter) hinside.le_start)))

/-- If the root is found, no way leads to what begins before the position. -/
theorem le_start_of_node_eq {t : Text} {catalog : Catalog} {n : Node} (hn : n.ReadFrom t catalog)
    {p : Position} (hroot : (n.findBefore p).node = n) {way : List (Nat × Node)}
    (h : n.IsDescent way) {step : Nat × Node} (hstep : step ∈ way) : p ≤ step.2.range.start := by
  cases way with
  | nil => contradiction
  | cons first rest =>
    obtain ⟨k, a⟩ := first
    have hstart := le_start_of_childBefore?_none hn.nested (childBefore?_of_node_eq hroot)
      (List.mem_of_getElem? h.1)
    exact le_trans hstart (h.inside_first hn step hstep).le_start

end Found

end Node

/-! ## Scripts -/

/-- What is asked of a path that was searched for a position in the tree under a root:
the node that it leads to is nearer to the position than all others. -/
structure NodePath.Nearest (path : NodePath) (root : Node) (p : Position) : Prop where
  root_eq : path.root = root
  descends : root.IsDescent path.steps
  /-- Ways lead to all nodes of the tree. -/
  reached : ∀ m ∈ root.nodes, m = root ∨ ∃ steps i, root.IsDescent (steps ++ [(i, m)])
  /-- A node to which a way leads is on the path, or below the node found, or it ends
  before that one begins, or it begins no earlier than the position. -/
  apart : ∀ steps i m, root.IsDescent (steps ++ [(i, m)]) →
    steps ++ [(i, m)] <+: path.steps ∨ path.steps <+: steps ++ [(i, m)] ∨
      m.range.stop ≤ path.node.range.start ∨ p ≤ m.range.start
  /-- The same of nodes as values. -/
  mem : ∀ m ∈ root.nodes, m ∈ path.nodes ∨ m ∈ path.node.nodes ∨
    m.range.stop ≤ path.node.range.start ∨ p ≤ m.range.start
  /-- The root is found only where nothing begins before the position. -/
  root_found : path.node = root → ∀ steps i m, root.IsDescent (steps ++ [(i, m)]) →
    p ≤ m.range.start

theorem Node.ReadFrom.nearest {t : Text} {catalog : Catalog} {n : Node} (h : n.ReadFrom t catalog)
    (p : Position) : (n.findBefore p).Nearest n p := by
  have hdescends := Node.isDescent_stepsBefore n p
  have hapart : ∀ steps i m, n.IsDescent (steps ++ [(i, m)]) → _ := fun steps i m hway =>
    Node.apart_stepsBefore h p hway List.getLast?_concat
  refine ⟨rfl, hdescends, fun m hm => Node.exists_isDescent hm, hapart, ?_, ?_⟩
  · intro m hm
    rcases Node.exists_isDescent hm with rfl | ⟨steps, i, hway⟩
    · exact .inl List.mem_cons_self
    · rcases hapart steps i m hway with hpath | hbelow | hapart
      · have hmem := hpath.subset (List.mem_append_right _ (List.mem_singleton_self (i, m)))
        exact .inl (List.mem_cons_of_mem _ (List.mem_map_of_mem hmem))
      · have hmem := hway.mem_nodes_of_prefix hbelow
        rw [NodePath.node_concat] at hmem
        exact .inr (.inl hmem)
      · exact .inr (.inr hapart)
  · intro hroot steps i m hway
    exact Node.le_start_of_node_eq h hroot hway List.mem_concat_self

/-- Every document is read, and in its script the node found for a position is the
nearest one before it. -/
theorem Script.read_nearest (d : Document) (catalog : Catalog) :
    ∃ s, read d catalog = .ok s ∧ ∀ p, (s.findBefore p).Nearest (.script s) p :=
  ⟨_, read_eq d catalog, (Node.ReadFrom.script rfl (List.prefix_refl d.lines)).nearest⟩

end KafkaScript
