import KafkaScript.Proofs.Text.Shown
import KafkaScript.Script.Outline

/-!
# The rows of an outline

An outline is a text, but it says nothing that the list of its rows does not
(`Row.flatMap_line_inj`): no label holds a line feed or begins with a space, so lines
and indentations can be found again. From a label in turn the kind and the range of
its node can be read, and what is remarked on it (`Node.eq_of_label`). The rows of a
node are deeper than the row of the node itself, so those of its children come apart
again (`Node.map_rows_children`).
-/

namespace KafkaScript

/-- One line of an outline. -/
@[ext] structure Row where
  depth : Nat
  label : Text

namespace Row

/-- How a row is written. -/
def line (r : Row) : Text :=
  Node.indent r.depth ++ r.label ++ ['\n']

/-- The label keeps the indentation and the end of its line apart. -/
structure Proper (r : Row) : Prop where
  head : r.label.head? ≠ some ' '
  lineFeed : '\n' ∉ r.label

/-- The indentation of a row ends where its label begins. -/
theorem Proper.cutBefore_label {r : Row} (h : r.Proper) (t : Text) :
    CutBefore (· ≠ ' ') (Node.indent r.depth) (r.label ++ '\n' :: t) := by
  refine ⟨fun x hx => not_not.mpr (List.eq_of_mem_replicate hx), ?_⟩
  intro x hx
  have hhead := h.head
  cases hlabel : r.label with
  | nil =>
    obtain rfl : '\n' = x := by simpa [hlabel] using hx
    decide
  | cons c label =>
    obtain rfl : c = x := by simpa [hlabel] using hx
    simpa [hlabel] using hhead

/-- A row and what follows it can be read off. -/
theorem Proper.line_append_inj {r r' : Row} (h : r.Proper) (h' : r'.Proper) {t t' : Text}
    (heq : r.line ++ t = r'.line ++ t') : r = r' ∧ t = t' := by
  simp only [line, List.append_assoc, List.singleton_append] at heq
  obtain ⟨hindent, hrest⟩ := (h.cutBefore_label t).inj (h'.cutBefore_label t') heq
  obtain ⟨hlabel, hrest⟩ :=
    (CutBefore.separator h.lineFeed t).inj (CutBefore.separator h'.lineFeed t') hrest
  have hdepth := congrArg List.length hindent
  simp only [Node.indent, List.length_replicate] at hdepth
  exact ⟨Row.ext (by omega) hlabel, (List.cons.inj hrest).2⟩

/-- Rows can be read off the text that they make up. -/
theorem flatMap_line_inj {rs rs' : List Row} (h : ∀ r ∈ rs, r.Proper) (h' : ∀ r ∈ rs', r.Proper)
    (heq : rs.flatMap line = rs'.flatMap line) : rs = rs' :=
  flatMap_inj (fun r _ => by simp [line]) (fun _ _ _ _ hr hr' => hr.line_append_inj hr') h h' heq

end Row

/-- A text that can be read off in front of a space. -/
structure IsWord (t : Text) : Prop where
  ne_nil : t ≠ []
  space : ' ' ∉ t
  lineFeed : '\n' ∉ t

/-- A label may begin with any word. -/
theorem IsWord.proper {word t : Text} (h : IsWord word) (ht : '\n' ∉ t) (depth : Nat) :
    Row.Proper ⟨depth, word ++ ' ' :: t⟩ where
  head := by
    cases word with
    | nil => exact absurd rfl h.ne_nil
    | cons c word =>
      intro hc
      obtain rfl : c = ' ' := by simpa using hc
      exact h.space List.mem_cons_self
  lineFeed := by simp [h.lineFeed, ht]

namespace NodeKind

theorem name_injective : Function.Injective name := by
  intro k k' h
  cases k <;> cases k' <;> first | rfl | exact absurd h (by decide)

theorem isWord_name (k : NodeKind) : IsWord k.name := by
  cases k <;> exact ⟨by decide, by decide, by decide⟩

end NodeKind

namespace Node

/-- What the row of a node shows. -/
def label (n : Node) : Text :=
  n.kind.name ++ ' ' :: (n.range.display ++ n.remark)

/-- The row of an expression that is not closed. -/
def unclosedRow (depth : Nat) (e : Expression) : Row :=
  ⟨depth, "unclosed".toList ++ ' ' :: (NodeKind.expression.name ++ ' ' :: e.range.display)⟩

/-- The rows of a node and of all nodes under it. -/
def rows (depth : Nat) (n : Node) : List Row :=
  (n.preorder depth).flatMap fun (depth, m) =>
    ⟨depth, m.label⟩ :: (m.unclosed?.map (unclosedRow (depth + 1))).toList

/-- An outline is written row by row. -/
theorem outline_eq (n : Node) : n.outline = (n.rows 0).flatMap Row.line := by
  rw [outline, rows, List.flatMap_assoc]
  congr 1
  funext ⟨depth, m⟩
  cases h : m.unclosed? with
  | none => simp [Row.line, label, outlineLine, h]
  | some e => simp [Row.line, label, outlineLine, unclosedLine, unclosedRow, h]

/-- The row of a node comes first, then those of its parts. -/
theorem rows_eq (depth : Nat) (n : Node) : n.rows depth =
    ⟨depth, n.label⟩ :: ((n.unclosed?.map (unclosedRow (depth + 1))).toList ++
      n.children.flatMap (rows (depth + 1))) := by
  rw [rows, preorder, List.flatMap_cons, List.flatMap_assoc, List.cons_append]
  congr 2
  refine (List.flatMap_subtype (g := rows (depth + 1)) fun c _ => rfl).trans ?_
  rw [List.unattach_attach]

/-! ## Labels -/

/-- What is remarked on a node is set off by a space. -/
theorem remark_cases (n : Node) : n.remark = [] ∨ ∃ t, '\n' ∉ t ∧ n.remark = ' ' :: t := by
  cases n with
  | property p =>
    rw [remark]
    split
    · exact .inr ⟨"(no assigner)".toList, by decide, rfl⟩
    · exact .inl rfl
  | text c => exact .inr ⟨c.content.quoted, c.content.not_mem_quoted_lineFeed, rfl⟩
  | template t => exact .inr ⟨t.chunk.content.quoted, Text.not_mem_quoted_lineFeed _, rfl⟩
  | script s => exact .inl rfl
  | block b => exact .inl rfl
  | expression e => exact .inl rfl

/-- From its row the kind and the range of a node can be read, and what is remarked
on it. -/
theorem eq_of_label {n m : Node} (h : n.label = m.label) :
    n.kind = m.kind ∧ n.range = m.range ∧ n.remark = m.remark := by
  have hname := fun k : NodeKind => CutBefore.separator k.isWord_name.space
  obtain ⟨hkind, hrest⟩ := (hname n.kind _).inj (hname m.kind _) h
  have hcut : ∀ x : Node, CutBefore (· = ' ') x.range.display x.remark := by
    intro x
    refine ⟨fun c hc heq => ?_, fun c hc => ?_⟩
    · exact Range.not_mem_display (by decide) (by decide) (by decide) x.range (heq ▸ hc)
    · rcases x.remark_cases with hnil | ⟨t, -, hspace⟩
      · simp [hnil] at hc
      · simpa [hspace, eq_comm] using hc
  obtain ⟨hrange, hremark⟩ := (hcut n).inj (hcut m) (List.cons.inj hrest).2
  exact ⟨NodeKind.name_injective hkind, Range.display_injective hrange, hremark⟩

theorem lineFeed_not_mem_display (r : Range) : '\n' ∉ r.display :=
  Range.not_mem_display (by decide) (by decide) (by decide) r

theorem proper_label (depth : Nat) (n : Node) : Row.Proper ⟨depth, n.label⟩ := by
  refine n.kind.isWord_name.proper ?_ depth
  have hrange := lineFeed_not_mem_display n.range
  rcases n.remark_cases with hnil | ⟨t, ht, hspace⟩
  · simp [hnil, hrange]
  · simp [hspace, hrange, ht]

theorem proper_unclosedRow (depth : Nat) (e : Expression) : (unclosedRow depth e).Proper := by
  have hunclosed : IsWord "unclosed".toList := ⟨by decide, by decide, by decide⟩
  have hname := NodeKind.expression.isWord_name.lineFeed
  refine hunclosed.proper ?_ depth
  simp [hname, lineFeed_not_mem_display e.range]

theorem proper_of_mem_rows {depth : Nat} {n : Node} : ∀ r ∈ n.rows depth, r.Proper := by
  intro r hr
  obtain ⟨⟨depth', m⟩, -, hr⟩ := List.mem_flatMap.mp hr
  rcases List.mem_cons.mp hr with rfl | hr
  · exact proper_label depth' m
  · obtain ⟨e, -, rfl⟩ := Option.map_eq_some_iff.mp (Option.mem_toList.mp hr)
    exact proper_unclosedRow (depth' + 1) e

/-! ## Parts -/

theorem le_depth_of_mem_rows {depth : Nat} {n : Node} : ∀ r ∈ n.rows depth, depth ≤ r.depth := by
  induction depth, n using preorder.induct with
  | case1 depth n ih =>
    intro r hr
    rw [rows_eq] at hr
    rcases List.mem_cons.mp hr with rfl | hr
    · exact Nat.le_refl depth
    rcases List.mem_append.mp hr with hr | hr
    · obtain ⟨e, -, rfl⟩ := Option.map_eq_some_iff.mp (Option.mem_toList.mp hr)
      exact Nat.le_succ depth
    · obtain ⟨c, hc, hr⟩ := List.mem_flatMap.mp hr
      have hdeeper := ih c hc r hr
      omega

/-- Only the first row of a node is as far left as that. -/
theorem headed_rows (depth : Nat) (n : Node) : Headed (·.depth = depth) (n.rows depth) := by
  refine ⟨_, _, n.rows_eq depth, rfl, ?_⟩
  intro r hr
  rcases List.mem_append.mp hr with hr | hr
  · obtain ⟨e, -, rfl⟩ := Option.map_eq_some_iff.mp (Option.mem_toList.mp hr)
    exact Nat.succ_ne_self depth
  · obtain ⟨c, -, hr⟩ := List.mem_flatMap.mp hr
    have hdeeper := le_depth_of_mem_rows r hr
    omega

theorem label_eq_of_rows {depth : Nat} {n m : Node} (h : n.rows depth = m.rows depth) :
    n.label = m.label := by
  rw [rows_eq, rows_eq] at h
  exact (Row.mk.inj (List.cons.inj h).1).2

/-- The rows of a node tell those of each of its parts. -/
theorem map_rows_children {depth : Nat} {n m : Node} (hn : n.unclosed? = none)
    (hm : m.unclosed? = none) (h : n.rows depth = m.rows depth) :
    n.children.map (rows (depth + 1)) = m.children.map (rows (depth + 1)) := by
  rw [rows_eq, rows_eq, hn, hm] at h
  have hheaded : ∀ x : Node, ∀ l ∈ x.children.map (rows (depth + 1)),
      Headed (·.depth = depth + 1) l := by
    intro x l hl
    obtain ⟨c, -, rfl⟩ := List.mem_map.mp hl
    exact c.headed_rows (depth + 1)
  -- the rows at the next depth are where the parts begin
  refine Headed.flatten_inj (hheaded n) (hheaded m) ?_
  simpa [List.flatMap_def] using (List.cons.inj h).2

end Node

end KafkaScript
