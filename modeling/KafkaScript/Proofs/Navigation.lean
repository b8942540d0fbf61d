import Mathlib.Data.List.Pairwise
import KafkaScript.Proofs.Nesting

/-!
# No enclosing node is missed

The search for the node before a position takes one part at each level and never
goes back. In a nested tree that is enough: of the parts of a node at most one
encloses the position, the parts behind it begin no earlier than it ends, so it is
the one that is taken (`Node.childBefore?_eq`); and if a node further down still
encloses the position, the search goes on into the part that holds it, also when
both end right there (`Node.reaches_of_child`). So every way down to an enclosing
node is the front of the way that is taken (`Node.prefix_stepsBefore`).
-/

namespace KafkaScript

namespace Node

/-! ## Ways down -/

/-- A way down from a node: each step leads to a part of the node reached before,
under the index of that part. -/
def IsDescent : Node → List (Nat × Node) → Prop
  | _, [] => True
  | n, (i, c) :: rest => n.children[i]? = some c ∧ IsDescent c rest

/-- A way down can be taken one step further. -/
theorem IsDescent.concat {n m c : Node} {steps : List (Nat × Node)} {i j : Nat}
    (h : n.IsDescent (steps ++ [(i, m)])) (hc : m.children[j]? = some c) :
    n.IsDescent (steps ++ [(i, m)] ++ [(j, c)]) := by
  induction steps generalizing n with
  | nil => exact ⟨h.1, hc, trivial⟩
  | cons step steps ih => exact ⟨h.1, ih h.2⟩

/-- A way leads down to every node of the tree. -/
theorem exists_isDescent {n m : Node} (h : m ∈ n.nodes) :
    m = n ∨ ∃ steps i, n.IsDescent (steps ++ [(i, m)]) := by
  refine forall_mem_nodes (P := fun m => m = n ∨ ∃ steps i, n.IsDescent (steps ++ [(i, m)]))
    ?_ (.inl rfl) m h
  rintro m (rfl | ⟨steps, i, hm⟩) c hc
  · obtain ⟨j, hj⟩ := List.mem_iff_getElem?.mp hc
    exact .inr ⟨[], j, hj, trivial⟩
  · obtain ⟨j, hj⟩ := List.mem_iff_getElem?.mp hc
    exact .inr ⟨steps ++ [(i, m)], j, hm.concat hj⟩

section Inside

variable {t : Text} {catalog : Catalog} {n c : Node} {steps : List (Nat × Node)} {i : Nat}

/-- A way down leads into a part of the node in which all that follows lies. -/
theorem IsDescent.exists_part (hn : n.ReadFrom t catalog) (h : n.IsDescent (steps ++ [(i, c)])) :
    ∃ part ∈ n.children, c.range.Inside part.range := by
  induction steps generalizing n with
  | nil =>
    have hmem := List.mem_of_getElem? h.1
    exact ⟨c, hmem, .self (hn.nested.parts_inside c hmem).ordered⟩
  | cons step steps ih =>
    have hmem := List.mem_of_getElem? h.1
    have hread := hn.children _ hmem
    obtain ⟨next, hnext, hinside⟩ := ih hread h.2
    exact ⟨step.2, hmem, hinside.trans (hread.nested.parts_inside next hnext)⟩

theorem IsDescent.inside (hn : n.ReadFrom t catalog) (h : n.IsDescent (steps ++ [(i, c)])) :
    c.range.Inside n.range := by
  obtain ⟨part, hpart, hinside⟩ := h.exists_part hn
  exact hinside.trans (hn.nested.parts_inside part hpart)

end Inside

/-! ## One level -/

section Level

variable {n c : Node} {p : Position} {i : Nat}

theorem getElem?_of_childBefore? (h : n.childBefore? p = some (i, c)) :
    n.children[i]? = some c ∧ c.range.start < p := by
  obtain ⟨d, hd, heq⟩ := Option.map_eq_some_iff.mp h
  obtain ⟨rfl, rfl⟩ := Prod.mk.inj heq
  rw [List.getLast?_eq_getElem?] at hd
  constructor
  · obtain ⟨hlt, hget⟩ := List.getElem?_eq_some_iff.mp hd
    rw [List.prefix_iff_getElem?.mp (List.takeWhile_prefix _) _ hlt, hget]
  · simpa using List.mem_takeWhile_imp (List.mem_of_getElem? hd)

/-- A part that encloses the position is the last one that begins before it. -/
theorem childBefore?_eq (h : n.Nested) (hc : n.children[i]? = some c) (hstart : c.range.start < p)
    (hstop : p ≤ c.range.stop) : n.childBefore? p = some (i, c) := by
  obtain ⟨front, behind, hsplit, hi⟩ : ∃ front behind, n.children = front ++ c :: behind ∧
      front.length = i := by
    obtain ⟨hlt, hget⟩ := List.getElem?_eq_some_iff.mp hc
    refine ⟨n.children.take i, n.children.drop (i + 1), ?_, List.length_take_of_le hlt.le⟩
    rw [← hget, ← List.drop_eq_getElem_cons hlt, List.take_append_drop]
  have hfollow := h.parts_follow
  rw [hsplit, List.pairwise_append, List.pairwise_cons] at hfollow
  obtain ⟨-, ⟨hbehind, -⟩, hfront⟩ := hfollow
  -- what comes before the part begins before it, hence before the position
  have hbefore : ∀ a ∈ front, decide (a.range.start < p) = true := by
    intro a ha
    have hmem : a ∈ n.children := hsplit ▸ List.mem_append_left _ ha
    have hac := hfront a ha c List.mem_cons_self
    exact decide_eq_true
      (lt_of_le_of_lt (le_trans (h.parts_inside a hmem).ordered hac) hstart)
  -- what comes after it begins at the position or later
  have hafter : behind.takeWhile (fun a => a.range.start < p) = [] := by
    rw [List.takeWhile_eq_nil_iff]
    intro hlen ha
    have hca := hbehind _ (List.getElem_mem hlen)
    exact absurd (of_decide_eq_true ha) (not_lt_of_ge (le_trans hstop hca))
  have htake : n.children.takeWhile (fun a => a.range.start < p) = front ++ [c] := by
    rw [hsplit, List.takeWhile_append_of_pos hbefore,
      List.takeWhile_cons_of_pos (by simpa using hstart), hafter]
  rw [childBefore?, htake]
  simp [hi]

/-- Where a part reaches the position, the search goes on into its node, even if
the node ends at the position. -/
theorem reaches_of_child (h : n.Nested) (hc : c ∈ n.children) (hstop : p ≤ c.range.stop) :
    n.reaches p = true := by
  rw [reaches, Bool.or_eq_true, decide_eq_true_eq]
  rcases lt_or_ge p n.range.stop with hlt | hge
  · exact .inl hlt
  · -- the part ends where the node does, and nothing behind it ends earlier
    right
    have hne : n.children ≠ [] := List.ne_nil_of_mem hc
    have hlast := List.getLast_mem hne
    have hle : c.range.stop ≤ (n.children.getLast hne).range.stop := by
      by_cases heq : c = n.children.getLast hne
      · rw [← heq]
      · have hfollow := h.parts_follow.rel_dropLast_getLast
          (List.mem_dropLast_of_mem_of_ne_getLast hc heq)
        exact le_trans hfollow (h.parts_inside _ hlast).ordered
    have hend : (n.children.getLast hne).range.stop = n.range.stop :=
      le_antisymm (h.parts_inside _ hlast).stop_le
        (le_trans hge (le_trans hstop hle))
    rw [lastChild?, List.getLast?_eq_some_getLast hne]
    simpa using hend

end Level

/-! ## The search -/

theorem stepsBefore_of_none {n : Node} {p : Position} (h : n.childBefore? p = none) :
    n.stepsBefore p = [] := by
  rw [stepsBefore]
  split
  · rfl
  · simp_all

theorem stepsBefore_of_some {n c : Node} {p : Position} {i : Nat}
    (h : n.childBefore? p = some (i, c)) :
    n.stepsBefore p = (i, c) :: if c.reaches p then c.stepsBefore p else [] := by
  rw [stepsBefore]
  split
  · simp_all
  · simp_all

/-- The search takes a way down. -/
theorem isDescent_stepsBefore (n : Node) (p : Position) : n.IsDescent (n.stepsBefore p) := by
  induction n using stepsBefore.induct p with
  | case1 n hnone =>
    rw [stepsBefore_of_none hnone]
    trivial
  | case2 n i c hsome ih =>
    rw [stepsBefore_of_some hsome]
    refine ⟨(getElem?_of_childBefore? hsome).1, ?_⟩
    split
    · exact ih
    · trivial

/-- All that the search passes begins before the position. -/
theorem start_lt_of_mem_stepsBefore (n : Node) (p : Position) :
    ∀ step ∈ n.stepsBefore p, step.2.range.start < p := by
  induction n using stepsBefore.induct p with
  | case1 n hnone =>
    rw [stepsBefore_of_none hnone]
    intro step hstep
    cases hstep
  | case2 n i c hsome ih =>
    rw [stepsBefore_of_some hsome]
    intro step hstep
    rcases List.mem_cons.mp hstep with rfl | hstep
    · exact (getElem?_of_childBefore? hsome).2
    · split at hstep
      · exact ih step hstep
      · cases hstep

/-- A way down to a node that encloses the position is the front of the way that
the search takes. -/
theorem prefix_stepsBefore {t : Text} {catalog : Catalog} {p : Position} {m : Node} {j : Nat}
    (hstart : m.range.start < p) (hstop : p ≤ m.range.stop) {n : Node} (hn : n.ReadFrom t catalog)
    {steps : List (Nat × Node)} (h : n.IsDescent (steps ++ [(j, m)])) :
    steps ++ [(j, m)] <+: n.stepsBefore p := by
  induction steps generalizing n with
  | nil =>
    rw [stepsBefore_of_some (childBefore?_eq hn.nested h.1 hstart hstop)]
    exact List.cons_prefix_cons.mpr ⟨rfl, List.nil_prefix⟩
  | cons step steps ih =>
    obtain ⟨i, c⟩ := step
    have hc : c.ReadFrom t catalog := hn.children c (List.mem_of_getElem? h.1)
    -- the part on the way encloses what the way leads to, and so the position
    have hinside := h.2.inside hc
    have hbefore := childBefore?_eq hn.nested h.1 (lt_of_le_of_lt hinside.le_start hstart)
      (le_trans hstop hinside.stop_le)
    -- what the way goes on to is a part that reaches the position
    obtain ⟨next, hnext, hwithin⟩ := h.2.exists_part hc
    have hreaches := reaches_of_child hc.nested hnext (le_trans hstop hwithin.stop_le)
    rw [stepsBefore_of_some hbefore, if_pos hreaches]
    exact List.cons_prefix_cons.mpr ⟨rfl, ih hc h.2⟩

end Node

/-! ## Paths -/

/-- What is asked of a path that was searched for a position in the tree under a
root: it goes down part by part, on nodes that begin before the position, and
along every node that encloses it. -/
structure NodePath.Encloses (path : NodePath) (root : Node) (p : Position) : Prop where
  root_eq : path.root = root
  /-- Each node is a part of the one before it, under the index of its step. -/
  descends : root.IsDescent path.steps
  before : ∀ step ∈ path.steps, step.2.range.start < p
  /-- A node that encloses the position is on the path, wherever it stands in the
  tree: the way down to it is the front of the path. -/
  passes : ∀ steps i m, root.IsDescent (steps ++ [(i, m)]) → m.range.start < p →
    p ≤ m.range.stop → steps ++ [(i, m)] <+: path.steps
  mem : ∀ m ∈ root.nodes, m.range.start < p → p ≤ m.range.stop → m ∈ path.nodes

theorem Node.ReadFrom.encloses {t : Text} {catalog : Catalog} {n : Node} (h : n.ReadFrom t catalog)
    (p : Position) : (n.findBefore p).Encloses n p where
  root_eq := rfl
  descends := Node.isDescent_stepsBefore n p
  before := Node.start_lt_of_mem_stepsBefore n p
  passes := fun _ _ _ hdescent hstart hstop => Node.prefix_stepsBefore hstart hstop h hdescent
  mem := by
    intro m hm hstart hstop
    rcases Node.exists_isDescent hm with rfl | ⟨steps, i, hdescent⟩
    · exact List.mem_cons_self
    · have hprefix := Node.prefix_stepsBefore hstart hstop h hdescent
      have hmem := hprefix.subset (List.mem_append_right _ (List.mem_singleton_self (i, m)))
      exact List.mem_cons_of_mem _ (List.mem_map_of_mem hmem)

/-- Every document is read, and in its script no search for a position misses a
node that encloses it. -/
theorem Script.read_findBefore (d : Document) (catalog : Catalog) :
    ∃ s, read d catalog = .ok s ∧ ∀ p, (s.findBefore p).Encloses (.script s) p :=
  ⟨_, read_eq d catalog, (Node.ReadFrom.script rfl (List.prefix_refl d.lines)).encloses⟩

end KafkaScript
