import Mathlib.Data.Option.Basic
import KafkaScript.Proofs.Tree
import KafkaScript.Script.Nesting

/-!
# Scripts are well nested

Every document is read, whatever it claims about its lines, unless it claims so
many that there is no room for them; and what is read passes the check. `Node.Checked`
is what the check asks of a node (`localViolation?_eq_none_iff`), `Node.Nested` is a
little more (`Nested.checked`), and every node read from a text has it
(`Node.ReadFrom.nested`), one argument for each level of the tree: spans of lines, lines
of a block, columns of a line, expressions of a chunk.
-/

namespace KafkaScript

/-- The range is in order and lies within another one. -/
structure Range.Inside (r outer : Range) : Prop where
  le_start : outer.start ≤ r.start
  ordered : r.start ≤ r.stop
  stop_le : r.stop ≤ outer.stop

theorem Range.encloses_iff {r s : Range} :
    r.encloses s = true ↔ r.start ≤ s.start ∧ s.stop ≤ r.stop := by
  simp [encloses]

theorem Range.Inside.encloses {r outer : Range} (h : r.Inside outer) : outer.encloses r = true :=
  encloses_iff.mpr ⟨h.le_start, h.stop_le⟩

theorem Range.Inside.trans {a b c : Range} (hab : a.Inside b) (hbc : b.Inside c) : a.Inside c :=
  ⟨le_trans hbc.le_start hab.le_start, hab.ordered, le_trans hab.stop_le hbc.stop_le⟩

theorem Range.Inside.self {r : Range} (h : r.start ≤ r.stop) : r.Inside r :=
  ⟨le_refl _, h, le_refl _⟩

namespace Node

/-- The node's range is in order, its parts lie within it and follow each other,
and so does the expression that it leaves open. -/
structure Nested (n : Node) : Prop where
  ordered : n.range.start ≤ n.range.stop
  parts_inside : ∀ c ∈ n.children, c.range.Inside n.range
  parts_follow : n.children.Pairwise fun a b => a.range.stop ≤ b.range.start
  unclosed_inside : ∀ e ∈ n.unclosed?, e.range.Inside n.range
  unclosed_last : ∀ e ∈ n.unclosed?, ∀ c ∈ n.children, c.range.stop ≤ e.range.start

/-- What the check asks of a node, which compares a part with the next one only. -/
structure Checked (n : Node) : Prop where
  ordered : n.range.start ≤ n.range.stop
  parts_enclosed : ∀ c ∈ n.children, n.range.encloses c.range = true
  parts_chained : n.children.IsChain fun a b => a.range.stop ≤ b.range.start
  unclosed_enclosed : ∀ e ∈ n.unclosed?, n.range.encloses e.range = true
  unclosed_behind : ∀ e ∈ n.unclosed?, ∀ last ∈ n.lastChild?, last.range.stop ≤ e.range.start

variable {n : Node}

theorem escape?_eq_none_iff :
    n.escape? = none ↔ ∀ c ∈ n.children, n.range.encloses c.range = true := by
  rw [escape?, Option.map_eq_none_iff, List.find?_eq_none]
  simp only [Bool.not_eq_true', Bool.not_eq_false]

theorem overlap?_eq_none_iff {ns : List Node} :
    overlap? ns = none ↔ ns.IsChain fun a b => a.range.stop ≤ b.range.start := by
  fun_induction overlap? ns with
  | case1 a b rest hle ih => rw [ih, List.isChain_cons_cons, and_iff_right hle]
  | case2 a b rest hlt => simp [hlt]
  | case3 ns hshort =>
    cases ns with
    | nil => simp
    | cons a ns =>
      cases ns with
      | nil => simp
      | cons b rest => exact (hshort a b rest rfl).elim

theorem unclosedViolation?_eq_none_iff {e : Expression} : n.unclosedViolation? e = none ↔
    n.range.encloses e.range = true ∧ ∀ last ∈ n.lastChild?, last.range.stop ≤ e.range.start := by
  unfold unclosedViolation?
  cases n.range.encloses e.range with
  | false => simp
  | true =>
    cases n.lastChild? with
    | none => simp
    | some last => simp

/-- The check has nothing to say about a node exactly if the node is as it asks. -/
theorem localViolation?_eq_none_iff : n.localViolation? = none ↔ n.Checked := by
  have hunclosed : n.unclosed?.bind n.unclosedViolation? = none ↔
      ∀ e ∈ n.unclosed?, n.unclosedViolation? e = none := Option.bind_eq_none_iff
  rw [localViolation?]
  split
  · next hordered =>
    simp only [Option.orElse_eq_none, escape?_eq_none_iff, overlap?_eq_none_iff, hunclosed,
      unclosedViolation?_eq_none_iff]
    constructor
    · rintro ⟨hparts, hchain, hopen⟩
      exact ⟨hordered, hparts, hchain, fun e he => (hopen e he).1, fun e he => (hopen e he).2⟩
    · intro h
      exact ⟨h.parts_enclosed, h.parts_chained,
        fun e he => ⟨h.unclosed_enclosed e he, h.unclosed_behind e he⟩⟩
  · next hinverted =>
    simp only [reduceCtorEq, false_iff]
    exact fun h => hinverted h.ordered

theorem Nested.checked (h : n.Nested) : n.Checked where
  ordered := h.ordered
  parts_enclosed c hc := (h.parts_inside c hc).encloses
  parts_chained := h.parts_follow.isChain
  unclosed_enclosed e he := (h.unclosed_inside e he).encloses
  unclosed_behind e he last hlast := h.unclosed_last e he last (List.mem_of_getLast? hlast)

end Node

/-- A script passes the check if all of its nodes are as it asks, and only then. -/
theorem Script.checkNesting_eq_ok_iff {s : Script} :
    s.checkNesting = .ok () ↔ ∀ n ∈ (Node.script s).nodes, n.Checked := by
  have hnone : (Node.script s).violation? = none ↔ ∀ n ∈ (Node.script s).nodes, n.Checked := by
    simp only [Node.violation?, List.findSome?_eq_none_iff, Node.localViolation?_eq_none_iff]
  rw [← hnone, checkNesting]
  cases (Node.script s).violation? with
  | none => simp
  | some v => simp

/-- A tree whose nodes are nested passes the check. -/
theorem Script.checkNesting_of_nested {s : Script} (h : ∀ n ∈ (Node.script s).nodes, n.Nested) :
    s.checkNesting = .ok () :=
  checkNesting_eq_ok_iff.mpr fun n hn => (h n hn).checked

/-! ## Properties -/

namespace Property

/-- A property made of a key and a value in order has them in its range. -/
theorem inside_build {key : Option TextChunk} (assigner : Option Nat) {value : Option Chunk}
    {line : Range} (hline : line.start ≤ line.stop) (hkey : ∀ k ∈ key, k.range.Inside line)
    (hvalue : ∀ v ∈ value, v.text.range.Inside line)
    (hfollow : ∀ k ∈ key, ∀ v ∈ value, k.range.stop ≤ v.text.range.start) :
    (build key assigner value line).range.Inside line ∧
      (∀ k ∈ key, k.range.Inside (build key assigner value line).range) ∧
      ∀ v ∈ value, v.text.range.Inside (build key assigner value line).range := by
  cases key with
  | none =>
    cases value with
    | none => exact ⟨.self hline, by simp, by simp⟩
    | some v =>
      have hv := hvalue v rfl
      refine ⟨hv, by simp, ?_⟩
      intro w hw
      obtain rfl := Option.some.inj hw
      exact .self hv.ordered
  | some k =>
    have hk := hkey k rfl
    cases value with
    | none =>
      refine ⟨hk, ?_, by simp⟩
      intro j hj
      obtain rfl := Option.some.inj hj
      exact .self hk.ordered
    | some v =>
      have hv := hvalue v rfl
      have hkv := hfollow k rfl v rfl
      have hstart : k.range.start ≤ v.text.range.start := le_trans hk.ordered hkv
      refine ⟨⟨hk.le_start, le_trans hstart hv.ordered, hv.stop_le⟩, ?_, ?_⟩
      · intro j hj
        obtain rfl := Option.some.inj hj
        exact ⟨le_refl _, hk.ordered, le_trans hkv hv.ordered⟩
      · intro w hw
        obtain rfl := Option.some.inj hw
        exact ⟨hstart, hv.ordered, le_refl _⟩

theorem inside_chunkOf {content : Text} {line start stop : Nat} (hle : start ≤ stop)
    (hstop : stop ≤ content.length) (kind : ChunkKind) :
    (chunkOf content line start stop kind).range.Inside (.ofWidth ⟨line, 0⟩ content.length) := by
  have hend : stop ≤ 0 + content.length := by omega
  exact ⟨.inr ⟨rfl, Nat.zero_le _⟩, .inr ⟨rfl, hle⟩, .inr ⟨rfl, hend⟩⟩

/-- The chunks of a line lie on it, and the key ends before the value begins. -/
theorem inside_parse (content : Text) (line : Nat) :
    (parse content line).range.Inside (.ofWidth ⟨line, 0⟩ content.length) ∧
      (∀ k ∈ (parse content line).key, k.range.Inside (parse content line).range) ∧
      (∀ v ∈ (parse content line).value, v.text.range.Inside (parse content line).range) ∧
      ∀ k ∈ (parse content line).key, ∀ v ∈ (parse content line).value,
        k.range.stop ≤ v.text.range.start := by
  have hkey : ∀ k ∈ keyOf? content line, k.range.Inside (.ofWidth ⟨line, 0⟩ content.length) := by
    intro k hk
    obtain ⟨start, hle, rfl⟩ := eq_chunkOf_of_keyOf? hk
    exact inside_chunkOf hle (keyStop_le content) .propertyKey
  have hvalue : ∀ v ∈ valueOf? content line,
      v.text.range.Inside (.ofWidth ⟨line, 0⟩ content.length) := by
    intro v hv
    obtain ⟨hlt, heq⟩ := text_of_valueOf? hv
    rw [heq]
    exact inside_chunkOf hlt (Nat.le_refl _) .propertyValue
  have hfollow : ∀ k ∈ keyOf? content line, ∀ v ∈ valueOf? content line,
      k.range.stop ≤ v.text.range.start := by
    intro k hk v hv
    obtain ⟨start, hle, rfl⟩ := eq_chunkOf_of_keyOf? hk
    rw [(text_of_valueOf? hv).2]
    exact .inr ⟨rfl, Nat.le_succ _⟩
  have hline : (⟨line, 0⟩ : Position) ≤ (Range.ofWidth ⟨line, 0⟩ content.length).stop :=
    .inr ⟨rfl, Nat.zero_le _⟩
  rw [key_parse, value_parse, parse_eq]
  obtain ⟨hrange, hk, hv⟩ := inside_build (assignerOf? content) hline hkey hvalue hfollow
  exact ⟨hrange, hk, hv, hfollow⟩

end Property

namespace Node

theorem range_ofChunk (v : Chunk) : (ofChunk v).range = v.text.range := by
  cases v <;> rfl

/-- A node that is no template leaves nothing open. -/
theorem nested_of_parts {n : Node} (hordered : n.range.start ≤ n.range.stop)
    (hinside : ∀ c ∈ n.children, c.range.Inside n.range)
    (hfollow : n.children.Pairwise fun a b => a.range.stop ≤ b.range.start)
    (hclosed : n.unclosed? = none) : n.Nested := by
  refine ⟨hordered, hinside, hfollow, ?_, ?_⟩ <;> simp [hclosed]

theorem pairwise_toList (n? : Option Node) :
    n?.toList.Pairwise fun a b => a.range.stop ≤ b.range.start := by
  cases n? <;> simp

theorem nested_property (content : Text) (line : Nat) :
    (property (Property.parse content line)).Nested := by
  obtain ⟨hrange, hkey, hvalue, hfollow⟩ := Property.inside_parse content line
  refine nested_of_parts hrange.ordered ?_ ?_ rfl
  · intro c hc
    rcases List.mem_append.mp hc with hc | hc
    · obtain ⟨k, hk, rfl⟩ := Option.map_eq_some_iff.mp (Option.mem_toList.mp hc)
      exact hkey k hk
    · obtain ⟨v, hv, rfl⟩ := Option.map_eq_some_iff.mp (Option.mem_toList.mp hc)
      rw [range_ofChunk]
      exact hvalue v hv
  · show (_ ++ _ : List Node).Pairwise _
    rw [List.pairwise_append]
    refine ⟨pairwise_toList _, pairwise_toList _, ?_⟩
    intro a ha b hb
    obtain ⟨k, hk, rfl⟩ := Option.map_eq_some_iff.mp (Option.mem_toList.mp ha)
    obtain ⟨v, hv, rfl⟩ := Option.map_eq_some_iff.mp (Option.mem_toList.mp hb)
    rw [range_ofChunk]
    exact hfollow k hk v hv

/-! ## Templates -/

theorem nested_template {t : Text} {c : TextChunk} (h : t.HoldsAt c.range c.content) :
    (template (.ofChunk c)).Nested := by
  have hfinds := Pairing.finds_scan c.content c.range.start
  have hinside : ∀ e ∈ (Pairing.scan c.content c.range.start).all, e.range.Inside c.range := by
    intro e he
    obtain ⟨hstart, hordered, hstop⟩ := hfinds.within e he
    rw [← h.stop_eq] at hstop
    exact ⟨hstart, hordered.start_le_stop, hstop⟩
  have hfollow := hfinds.pairwise
  unfold Pairing.all at hinside hfollow
  rw [List.pairwise_append] at hfollow
  refine ⟨h.start_le_stop, ?_, ?_, ?_, ?_⟩
  · intro n hn
    obtain ⟨e, he, rfl⟩ := List.mem_map.mp hn
    exact hinside e (List.mem_append_left _ he)
  · exact List.pairwise_map.mpr hfollow.1
  · intro e he
    exact hinside e (List.mem_append_right _ (Option.mem_toList.mpr he))
  · intro e he n hn
    obtain ⟨e', he', rfl⟩ := List.mem_map.mp hn
    exact hfollow.2.2 e' he' e (Option.mem_toList.mpr he)

theorem nested_text {t : Text} {c : TextChunk} (h : t.HoldsAt c.range c.content) :
    (text c).Nested := by
  refine nested_of_parts h.start_le_stop ?_ .nil rfl
  intro n hn
  cases hn

theorem nested_expression {c : TextChunk} {e : Expression}
    (he : e ∈ (Template.ofChunk c).expressions) : (expression e).Nested := by
  obtain ⟨-, hordered, -⟩ := (Pairing.finds_scan c.content c.range.start).within e
    (List.mem_append_left _ he)
  refine nested_of_parts hordered.start_le_stop ?_ .nil rfl
  intro n hn
  cases hn

end Node

/-! ## Blocks -/

/-- What trimming leaves of a piece of text lies where the piece is. -/
theorem Text.HoldsAt.inside_trim {t s : Text} {r : Range} (h : t.HoldsAt r s) :
    (⟨r.start.walk s.leadingBlanks, r.start.walk (s.leadingBlanks ++ s.trim)⟩ : Range).Inside r := by
  refine ⟨Position.le_walk _ _, Position.walk_le_walk_append _ _ _, ?_⟩
  have hle := Position.walk_le_walk_append r.start (s.leadingBlanks ++ s.trim) s.trailingBlanks
  rwa [s.leading_trim_trailing, ← h.stop_eq] at hle

/-- The group stands on the opening line. -/
theorem ConsumerBlock.inside_groupIdOf {l : Line} (h : l.opener? = some .consumer) :
    (groupIdOf l).range.Inside l.range := by
  have hline := congrArg List.length (content_of_opener h)
  have hrest := congrArg List.length (afterKeyword l).leading_trim_trailing
  simp only [List.length_append] at hline hrest
  rw [groupIdOf_eq h]
  refine ⟨.inr ⟨rfl, Nat.zero_le _⟩, .inr ⟨rfl, Nat.le_add_right _ _⟩, .inr ⟨rfl, ?_⟩⟩
  show BlockKind.consumer.keyword.length + (afterKeyword l).leadingBlanks.length +
    (afterKeyword l).trim.length ≤ 0 + l.content.length
  omega

/-- A later line begins after an earlier one ends. -/
theorem Line.stop_le_start {l m : Line} (h : l.number < m.number) :
    l.range.stop ≤ (⟨m.number, 0⟩ : Position) :=
  .inl h

/-- The lines that are read as something, each once and in order. -/
theorem ProducerBlock.sublist_body (catalog : Catalog) (ls : List Line) :
    (propertyLines catalog ls ++ (valueLine? catalog ls).toList).Sublist ls := by
  refine List.Sublist.trans ?_ (List.filter_sublist (p := fun l => !l.isIgnored))
  show (_ ++ (List.find? _ (Line.carrying ls)).toList).Sublist (Line.carrying ls)
  unfold propertyLines
  generalize Line.carrying ls = cs
  induction cs with
  | nil => exact .slnil
  | cons l cs ih =>
    by_cases hknown : isProperty catalog l = true
    · rw [List.takeWhile_cons_of_pos hknown, List.find?_cons_of_neg (by simp [hknown])]
      exact ih.cons_cons l
    · rw [List.takeWhile_cons_of_neg hknown, List.find?_cons_of_pos (by simp [hknown])]
      simp

namespace Section

variable {t : Text} {kind : BlockKind} {opening : Line} {body : List Line}

/-- The range of a section. -/
def range (opening : Line) (body : List Line) : Range :=
  ⟨⟨opening.number, 0⟩, (Script.rangeOf (opening :: body)).stop⟩

/-- Every line of a section lies in its range. -/
theorem inside_range (h : Section t kind opening body) {l : Line} (hl : l ∈ opening :: body) :
    l.range.Inside (range opening body) := by
  refine ⟨?_, l.start_le_stop, Script.le_stop_rangeOf h.numbered l hl⟩
  rcases List.mem_cons.mp hl with rfl | hl
  · exact le_refl _
  · exact .inl ((List.pairwise_cons.mp h.numbered.pairwise).1 l hl)

theorem ordered_range (h : Section t kind opening body) :
    (range opening body).start ≤ (range opening body).stop := by
  have hopening := h.inside_range List.mem_cons_self
  exact le_trans hopening.le_start (le_trans hopening.ordered hopening.stop_le)

theorem inside_property (h : Section t kind opening body) {l : Line} (hl : l ∈ body) :
    (Property.parse l.content l.number).range.Inside (range opening body) :=
  (Property.inside_parse l.content l.number).1.trans (h.inside_range (List.mem_cons_of_mem _ hl))

/-- The value lies between the start of its line and the end of the section. -/
theorem inside_value (h : Section t kind opening body) {l : Line} (hl : l ∈ opening :: body)
    {value : Template}
    (hv : ProducerBlock.valueFrom? (RawLine.ofText t) (Script.rangeOf (opening :: body)).stop l =
      some value) :
    value.chunk.range.Inside ⟨⟨l.number, 0⟩, (Script.rangeOf (opening :: body)).stop⟩ := by
  obtain ⟨-, rfl⟩ := Template.eq_of_trimmed? hv
  exact (h.holdsAt_rest hl).inside_trim

/-- Properties of lines that follow each other do so, too. -/
theorem pairwise_properties {ls : List Line} (h : ls.Pairwise fun l m => l.number < m.number) :
    (ls.map fun l => Node.property (Property.parse l.content l.number)).Pairwise
      fun a b => a.range.stop ≤ b.range.start := by
  rw [List.pairwise_map]
  refine h.imp ?_
  intro l m hlt
  have hl := (Property.inside_parse l.content l.number).1
  have hm := (Property.inside_parse m.content m.number).1
  exact le_trans hl.stop_le (le_trans (Line.stop_le_start hlt) hm.le_start)

theorem nested_producer (h : Section t .producer opening body) (catalog : Catalog) :
    (Node.block (.ofLines (RawLine.ofText t) catalog .producer (opening :: body))).Nested := by
  -- properties and value come from lines of the body in order, so their numbers rise
  have hsub := ProducerBlock.sublist_body catalog body
  have horder := (List.pairwise_cons.mp h.numbered.pairwise).2.sublist hsub
  rw [List.pairwise_append] at horder
  refine Node.nested_of_parts h.ordered_range ?_ ?_ rfl
  · intro c hc
    rcases List.mem_append.mp hc with hc | hc
    · obtain ⟨p, hp, rfl⟩ := List.mem_map.mp hc
      obtain ⟨l, hl, rfl⟩ := List.mem_map.mp hp
      exact h.inside_property (ProducerBlock.mem_of_mem_propertyLines hl)
    · obtain ⟨value, hvalue, rfl⟩ := Option.map_eq_some_iff.mp (Option.mem_toList.mp hc)
      obtain ⟨l, hl, hv⟩ := Option.bind_eq_some_iff.mp hvalue
      have hmem := List.mem_cons_of_mem opening (ProducerBlock.mem_of_valueLine? hl)
      have hinside := h.inside_value hmem hv
      exact hinside.trans ⟨(h.inside_range hmem).le_start,
        le_trans hinside.le_start (le_trans hinside.ordered hinside.stop_le), le_refl _⟩
  · show (List.map _ (List.map _ _) ++ _).Pairwise _
    rw [List.map_map, List.pairwise_append]
    refine ⟨pairwise_properties horder.1, Node.pairwise_toList _, ?_⟩
    intro a ha b hb
    obtain ⟨l, hl, rfl⟩ := List.mem_map.mp ha
    obtain ⟨value, hvalue, rfl⟩ := Option.map_eq_some_iff.mp (Option.mem_toList.mp hb)
    obtain ⟨m, hm, hv⟩ := Option.bind_eq_some_iff.mp hvalue
    have hmem := List.mem_cons_of_mem opening (ProducerBlock.mem_of_valueLine? hm)
    have hlt := horder.2.2 l hl m (Option.mem_toList.mpr hm)
    exact le_trans (Property.inside_parse l.content l.number).1.stop_le
      (le_trans (Line.stop_le_start hlt) (h.inside_value hmem hv).le_start)

theorem nested_consumer (h : Section t .consumer opening body) (catalog : Catalog) :
    (Node.block (.ofLines (RawLine.ofText t) catalog .consumer (opening :: body))).Nested := by
  have hcarrying : (body.filter fun l => !l.isIgnored).Sublist body := List.filter_sublist
  have horder := List.pairwise_cons.mp h.numbered.pairwise
  have hopening := h.inside_range List.mem_cons_self
  have hgroup := ConsumerBlock.inside_groupIdOf h.opens
  refine Node.nested_of_parts h.ordered_range ?_ ?_ rfl
  · intro c hc
    rcases List.mem_cons.mp hc with rfl | hc
    · exact hgroup.trans hopening
    · obtain ⟨p, hp, rfl⟩ := List.mem_map.mp hc
      obtain ⟨l, hl, rfl⟩ := List.mem_map.mp hp
      exact h.inside_property (hcarrying.subset hl)
  · show (_ :: List.map _ (List.map _ _)).Pairwise _
    rw [List.map_map, List.pairwise_cons]
    refine ⟨?_, pairwise_properties (horder.2.sublist hcarrying)⟩
    intro b hb
    obtain ⟨l, hl, rfl⟩ := List.mem_map.mp hb
    have hlt := horder.1 l (hcarrying.subset hl)
    exact le_trans hgroup.stop_le (le_trans (Line.stop_le_start hlt)
      (Property.inside_parse l.content l.number).1.le_start)

end Section

/-! ## Scripts -/

@[simp] theorem Block.range_ofLines (source : List RawLine) (catalog : Catalog) (kind : BlockKind)
    (opening : Line) (body : List Line) :
    (Block.ofLines source catalog kind (opening :: body)).range = Section.range opening body := by
  cases kind <;> rfl

namespace BlockSpan

variable {d : Document} {lines : List Line} {span : BlockSpan}

/-- The range of the block of a span. -/
theorem range_block (h : lines <+: d.lines) (hspan : span ∈ ofLines lines) (source : List RawLine)
    (catalog : Catalog) :
    (Block.ofLines source catalog span.kind (span.slice lines)).range =
      ⟨⟨span.startLine, 0⟩, (Script.rangeOf (span.slice lines)).stop⟩ := by
  obtain ⟨opening, body, hslice, hnumber, -, -⟩ := section_slice h hspan
  rw [hslice, Block.range_ofLines, Section.range, hnumber]

end BlockSpan

/-- Each block ends on a line before the one on which the next block begins. -/
theorem Script.pairwise_blocks {d : Document} {lines : List Line} (h : lines <+: d.lines)
    (catalog : Catalog) : (ofLines d.rawLines catalog lines).blocks.Pairwise
      fun a b => a.range.stop.line < b.range.start.line := by
  have hnumbered := d.numbered_lines.of_prefix h
  rw [ofLines, List.pairwise_map]
  refine (BlockSpan.pairwise_ofLines hnumbered).imp_of_mem ?_
  intro a b ha hb hlt
  rw [BlockSpan.range_block h ha, BlockSpan.range_block h hb]
  show (rangeOf (a.slice lines)).stop.line < b.startLine
  rw [BlockSpan.line_stop_slice hnumbered ha]
  exact hlt

theorem Script.nested_ofLines {d : Document} {lines : List Line} (h : lines <+: d.lines)
    (catalog : Catalog) : (Node.script (.ofLines d.rawLines catalog lines)).Nested := by
  have hnumbered := d.numbered_lines.of_prefix h
  refine Node.nested_of_parts (Position.zero_le _) ?_ ?_ rfl
  · intro c hc
    obtain ⟨b, hb, rfl⟩ := List.mem_map.mp hc
    obtain ⟨span, hspan, rfl⟩ := List.mem_map.mp hb
    show (Block.range _).Inside _
    obtain ⟨opening, body, hslice, -, -, hsection⟩ := BlockSpan.section_slice h hspan
    rw [hslice, Block.range_ofLines]
    -- the block ends where one of the lines does
    obtain ⟨last, hlast, hstop⟩ := exists_stop_rangeOf opening body
    have hmem : last ∈ lines := BlockSpan.slice_subset (hslice ▸ hlast)
    refine ⟨Position.zero_le _, hsection.ordered_range, ?_⟩
    show (rangeOf (opening :: body)).stop ≤ (rangeOf lines).stop
    rw [hstop]
    exact le_stop_rangeOf hnumbered last hmem
  · exact List.pairwise_map.mpr ((pairwise_blocks h catalog).imp fun hlt => .inl hlt)

/-- Whatever is read from a text is nested. -/
theorem Node.ReadFrom.nested {t : Text} {catalog : Catalog} {n : Node} (h : ReadFrom t catalog n) :
    n.Nested := by
  cases h with
  | script ht hp => exact Script.nested_ofLines hp catalog
  | @block kind opening body hsection =>
    cases kind with
    | producer => exact hsection.nested_producer catalog
    | consumer => exact hsection.nested_consumer catalog
  | property _ => exact nested_property _ _
  | text hholds => exact nested_text hholds
  | template hholds => exact nested_template hholds
  | expression _ he => exact nested_expression he

/-! ## Reading documents -/

/-- The parts of an expression follow each other, whether it is closed or not. -/
theorem Node.ReadFrom.ordered {t : Text} {catalog : Catalog} {n : Node}
    (h : ReadFrom t catalog n) {e : Expression} (he : n = .expression e ∨ n.unclosed? = some e) :
    e.Ordered := by
  cases h with
  | @expression c e' _ hmem =>
    rcases he with he | he
    · obtain rfl : e' = e := by simpa using he
      exact ((Pairing.finds_scan c.content c.range.start).within e' (List.mem_append_left _ hmem)).2.1
    · contradiction
  | @template c _ =>
    rcases he with he | he
    · contradiction
    · have hmem : e ∈ (Pairing.scan c.content c.range.start).all :=
        List.mem_append_right _ (Option.mem_toList.mpr he)
      exact ((Pairing.finds_scan c.content c.range.start).within e hmem).2.1
  | script _ _ => rcases he with he | he <;> contradiction
  | block _ => rcases he with he | he <;> contradiction
  | property _ => rcases he with he | he <;> contradiction
  | text _ => rcases he with he | he <;> contradiction

/-- Wherever a document is cut on the way to its script, that is within its text
and between two characters: at the ends of a line, at the ends of a range that
its text is asked for, and where a cursor over that text stands. -/
structure Document.CutBetweenCharacters (d : Document) : Prop where
  line : ∀ l ∈ d.lines,
    d.text.IsSlice (d.offsetAt l.range.start) (d.offsetAt l.range.stop) l.content
  range : ∀ r, d.text.IsSlice (d.offsetAt r.start) (max (d.offsetAt r.start) (d.offsetAt r.stop))
    (d.getText r)
  cursor : ∀ (t : Text) origin n, t.IsSlice (Cursor.advanceN n (.start t origin)).index t.utf8Size
    (Cursor.advanceN n (.start t origin)).rest

theorem Document.cutBetweenCharacters (d : Document) : d.CutBetweenCharacters := by
  refine ⟨?_, d.isSlice_getText, ?_⟩
  · intro l hl
    obtain ⟨raw, hraw, heq⟩ := liesIn_of_mem_lines hl
    have hholds := Text.holdsAt_line hraw (Nat.zero_le raw.content.length) (Nat.le_refl _)
    rw [List.take_length, List.drop_zero, heq] at hholds
    have hslice := isSlice_of_holdsAt hholds
    rwa [Line.range, Range.ofWidth, Nat.zero_add]
  · intro t origin n
    refine Cursor.isSlice_rest_advanceN n ⟨[], [], ?_, rfl, ?_⟩
    · simp [Cursor.start]
    · simp [Cursor.start]

/-- Every document is read, at whatever number of lines it claims to have, unless
the claim exceeds both the room there can be and the lines there are. The lines of
every block are among those that are read. What is read is well nested, and every
chunk in it is as long as its range and cut out of the text between the offsets of
its ends. -/
theorem Script.readClaiming_wellNested (d : Document) (claimed : Nat) (catalog : Catalog) :
    d.CutBetweenCharacters ∧
      if maxRoom < claimed ∧ d.lineCount < claimed then
        readClaiming d claimed catalog = .error (.noRoom claimed)
      else ∃ s, readClaiming d claimed catalog = .ok s ∧ s.checkNesting = .ok () ∧
        (∀ span ∈ BlockSpan.ofLines (readLines d claimed),
          span.startLine ≤ span.stopLine ∧ span.stopLine < (readLines d claimed).length) ∧
        ∀ n ∈ (Node.script s).nodes, n.Nested ∧
          (∀ content ∈ n.content?, n.range.stop = n.range.start.walk content ∧
            d.text.IsSlice (d.offsetAt n.range.start) (d.offsetAt n.range.stop) content) ∧
          ∀ e, n = .expression e ∨ n.unclosed? = some e → e.Ordered := by
  refine ⟨d.cutBetweenCharacters, ?_⟩
  have hp : readLines d claimed <+: d.lines := List.take_prefix claimed d.lines
  rw [readClaiming_eq]
  split
  · rfl
  · have hread : ∀ n ∈ (Node.script (ofLines d.rawLines catalog (readLines d claimed))).nodes,
        n.ReadFrom d.text catalog := fun n hn => Node.readFrom_of_mem_nodes hp hn
    refine ⟨_, rfl, checkNesting_of_nested fun n hn => (hread n hn).nested, ?_, ?_⟩
    · intro span hspan
      exact (BlockSpan.spans_ofLines (d.numbered_lines.of_prefix hp) span hspan).2
    · intro n hn
      refine ⟨(hread n hn).nested, ?_, fun e he => (hread n hn).ordered he⟩
      intro content hcontent
      have hholds := (hread n hn).holdsAt content hcontent
      exact ⟨hholds.stop_eq, Document.isSlice_of_holdsAt hholds⟩

end KafkaScript
