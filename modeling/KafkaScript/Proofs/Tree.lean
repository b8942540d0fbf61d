import KafkaScript.Proofs.Reading
import KafkaScript.Script.Node

/-!
# Where the nodes of a script come from

`Node.ReadFrom` says how a node was read from a text: a block from a section of
its lines, a property from one line, a chunk from the place where it stands, an
expression from a scan of a chunk. What is read from a text has parts that are
read from it (`ReadFrom.children`), one case for each constructor, and so has
the whole tree (`forall_mem_nodes`). A fact about all nodes of a script is
therefore proved by cases on where a node comes from.
-/

namespace KafkaScript

namespace Node

/-! ## Trees -/

/-- What passes from a node to its parts holds in the whole tree under a node. -/
theorem forall_mem_nodes {P : Node → Prop} (hstep : ∀ n, P n → ∀ c ∈ n.children, P c) {n : Node}
    (hn : P n) : ∀ m ∈ n.nodes, P m := by
  -- the depths are no part of the claim, but the recursion carries them
  suffices h : ∀ depth, ∀ x ∈ n.preorder depth, P x.2 by
    intro m hm
    obtain ⟨x, hx, rfl⟩ := List.mem_map.mp hm
    exact h 0 x hx
  intro depth
  induction depth, n using preorder.induct with
  | case1 depth n ih =>
    intro x hx
    rw [preorder] at hx
    rcases List.mem_cons.mp hx with rfl | hx
    · exact hn
    · obtain ⟨⟨c, hc⟩, -, hx⟩ := List.mem_flatMap.mp hx
      exact ih c hc (hstep n hn c hc) x hx

/-- The depth is counted along the way and changes nothing else. -/
theorem nodes_preorder (depth : Nat) (n : Node) : (n.preorder depth).map (·.2) = n.nodes := by
  suffices h : ∀ depth', (n.preorder depth).map (·.2) = (n.preorder depth').map (·.2) from h 0
  induction depth, n using preorder.induct with
  | case1 depth n ih =>
    intro depth'
    rw [preorder, preorder, List.map_cons, List.map_cons, List.map_flatMap, List.map_flatMap]
    refine congrArg (n :: ·) (List.flatMap_congr fun ⟨c, hc⟩ _ => ?_)
    exact ih c hc (depth' + 1)

/-- The nodes of a tree are its root and those of the trees under the root's parts. -/
theorem nodes_eq (n : Node) : n.nodes = n :: n.children.flatMap nodes := by
  rw [nodes, preorder, List.map_cons, List.map_flatMap]
  simp only [nodes_preorder, List.flatMap_subtype, List.unattach_attach]

/-! ## Reading -/

/-- How the nodes of a script are read from a text. -/
inductive ReadFrom (t : Text) (catalog : Catalog) : Node → Prop where
  | script {d : Document} {lines : List Line} : d.text = t → lines <+: d.lines →
      ReadFrom t catalog (.script (.ofLines d.rawLines catalog lines))
  | block {kind : BlockKind} {opening : Line} {body : List Line} : Section t kind opening body →
      ReadFrom t catalog (.block (.ofLines (RawLine.ofText t) catalog kind (opening :: body)))
  | property {l : Line} : l.LiesIn t →
      ReadFrom t catalog (.property (Property.parse l.content l.number))
  | text {c : TextChunk} : t.HoldsAt c.range c.content → ReadFrom t catalog (.text c)
  | template {c : TextChunk} : t.HoldsAt c.range c.content →
      ReadFrom t catalog (.template (.ofChunk c))
  | expression {c : TextChunk} {e : Expression} : t.HoldsAt c.range c.content →
      e ∈ (Template.ofChunk c).expressions → ReadFrom t catalog (.expression e)

end Node

/-! ## The parts of a block -/

section Chunks

variable {t : Text} {l : Line}

theorem Line.LiesIn.holdsAt (h : l.LiesIn t) {start stop : Nat} (hle : start ≤ stop)
    (hstop : stop ≤ l.content.length) (kind : ChunkKind) :
    t.HoldsAt (Property.chunkOf l.content l.number start stop kind).range
      (Property.chunkOf l.content l.number start stop kind).content := by
  obtain ⟨raw, hraw, heq⟩ := h
  rw [← heq] at hstop ⊢
  exact Property.holdsAt_chunkOf hraw hle hstop kind

theorem Line.LiesIn.not_mem (h : l.LiesIn t) : '\n' ∉ l.content := by
  obtain ⟨raw, hraw, heq⟩ := h
  rw [← heq]
  exact (RawLine.split_ofText t).not_mem raw (List.mem_of_getElem? hraw)

/-- The key of a line stands where it is said to. -/
theorem Line.LiesIn.key (h : l.LiesIn t) {k : TextChunk}
    (hk : (Property.parse l.content l.number).key = some k) : t.HoldsAt k.range k.content := by
  rw [Property.key_parse] at hk
  obtain ⟨start, hle, rfl⟩ := Property.eq_chunkOf_of_keyOf? hk
  exact h.holdsAt hle (Property.keyStop_le l.content) .propertyKey

/-- So does its value. -/
theorem Line.LiesIn.value (h : l.LiesIn t) {v : Chunk}
    (hv : (Property.parse l.content l.number).value = some v) :
    t.HoldsAt v.text.range v.text.content := by
  rw [Property.value_parse] at hv
  obtain ⟨hlt, heq⟩ := Property.text_of_valueOf? hv
  rw [heq]
  exact h.holdsAt hlt (Nat.le_refl _) .propertyValue

/-- The start of a line is a position of its text, and so is its end. -/
theorem Line.LiesIn.isPosition (h : l.LiesIn t) {character : Nat}
    (hle : character ≤ l.content.length) :
    RawLine.IsPosition (RawLine.ofText t) ⟨l.number, character⟩ := by
  obtain ⟨raw, hraw, heq⟩ := h
  exact ⟨raw, hraw, by rwa [heq]⟩

/-- The group named by an opening line stands where it is said to. -/
theorem Line.LiesIn.groupId (h : l.LiesIn t) (hopen : l.opener? = some .consumer) :
    t.HoldsAt (ConsumerBlock.groupIdOf l).range (ConsumerBlock.groupIdOf l).content := by
  have hlen := congrArg List.length (ConsumerBlock.content_of_opener hopen)
  rw [List.length_append] at hlen
  have hrest : t.HoldsAt ⟨⟨l.number, BlockKind.consumer.keyword.length⟩,
      ⟨l.number, l.content.length⟩⟩ (ConsumerBlock.afterKeyword l) := by
    have hle : BlockKind.consumer.keyword.length ≤ l.content.length := by omega
    have hchunk := h.holdsAt hle (Nat.le_refl _) .consumerGroupId
    rwa [Property.chunkOf, List.take_of_length_le (by rw [List.length_drop])] at hchunk
  have hn : '\n' ∉ ConsumerBlock.afterKeyword l := fun hm => h.not_mem (List.mem_of_mem_drop hm)
  rw [ConsumerBlock.groupIdOf_eq hopen]
  exact hrest.trim_onLine hn

end Chunks

theorem Script.exists_stop_rangeOf (l : Line) (ls : List Line) :
    ∃ last ∈ l :: ls, (rangeOf (l :: ls)).stop = last.range.stop := by
  refine ⟨(l :: ls).getLast (by simp), List.getLast_mem _, ?_⟩
  rw [rangeOf, List.getLast?_eq_some_getLast (by simp)]
  rfl

namespace Section

variable {t : Text} {kind : BlockKind} {opening : Line} {body : List Line}

/-- From the start of any line to the end of the section the text is there. -/
theorem holdsAt_rest (h : Section t kind opening body) {l : Line} (hl : l ∈ opening :: body) :
    t.HoldsAt ⟨⟨l.number, 0⟩, (Script.rangeOf (opening :: body)).stop⟩
      (RawLine.textBetween (RawLine.ofText t) ⟨l.number, 0⟩
        (Script.rangeOf (opening :: body)).stop) := by
  have hle := le_trans l.start_le_stop (Script.le_stop_rangeOf h.numbered l hl)
  obtain ⟨last, hlast, hstop⟩ := Script.exists_stop_rangeOf opening body
  rw [hstop] at hle ⊢
  refine Text.holdsAt_textBetween ((h.liesIn l hl).isPosition (Nat.zero_le _)) ?_ hle
  show RawLine.IsPosition _ ⟨last.number, 0 + last.content.length⟩
  exact (h.liesIn last hlast).isPosition (by omega)

/-- The value that begins on a line stands where it is said to. -/
theorem value (h : Section t kind opening body) {l : Line} (hl : l ∈ opening :: body)
    {value : Template}
    (hv : ProducerBlock.valueFrom? (RawLine.ofText t) (Script.rangeOf (opening :: body)).stop l =
      some value) :
    ∃ c, value = .ofChunk c ∧ t.HoldsAt c.range c.content := by
  obtain ⟨-, rfl⟩ := Template.eq_of_trimmed? hv
  exact ⟨_, rfl, (h.holdsAt_rest hl).trim⟩

end Section

namespace ProducerBlock

variable {catalog : Catalog} {ls : List Line} {l : Line}

theorem mem_of_mem_propertyLines (h : l ∈ propertyLines catalog ls) : l ∈ ls :=
  (Line.mem_carrying.mp ((List.takeWhile_prefix _).subset h)).1

theorem mem_of_valueLine? (h : valueLine? catalog ls = some l) : l ∈ ls :=
  (Line.mem_carrying.mp (List.mem_of_find?_eq_some h)).1

end ProducerBlock

/-! ## The parts of a node -/

namespace Node

variable {t : Text} {catalog : Catalog}

theorem readFrom_block {kind : BlockKind} {opening : Line} {body : List Line}
    (h : Section t kind opening body) :
    ∀ c ∈ (Node.block (.ofLines (RawLine.ofText t) catalog kind (opening :: body))).children,
      ReadFrom t catalog c := by
  intro c hc
  cases kind with
  | producer =>
    rcases List.mem_append.mp hc with hc | hc
    · obtain ⟨p, hp, rfl⟩ := List.mem_map.mp hc
      obtain ⟨l, hl, rfl⟩ := List.mem_map.mp hp
      have hbody := ProducerBlock.mem_of_mem_propertyLines hl
      exact .property (h.liesIn l (List.mem_cons_of_mem _ hbody))
    · obtain ⟨value, hvalue, rfl⟩ := Option.map_eq_some_iff.mp (Option.mem_toList.mp hc)
      obtain ⟨l, hl, hv⟩ := Option.bind_eq_some_iff.mp hvalue
      have hbody := ProducerBlock.mem_of_valueLine? hl
      obtain ⟨chunk, rfl, hholds⟩ := h.value (List.mem_cons_of_mem _ hbody) hv
      exact .template hholds
  | consumer =>
    rcases List.mem_cons.mp hc with rfl | hc
    · exact .text ((h.liesIn opening List.mem_cons_self).groupId h.opens)
    · obtain ⟨p, hp, rfl⟩ := List.mem_map.mp hc
      obtain ⟨l, hl, rfl⟩ := List.mem_map.mp hp
      have hbody := (Line.mem_carrying.mp hl).1
      exact .property (h.liesIn l (List.mem_cons_of_mem _ hbody))

theorem readFrom_property {l : Line} (h : l.LiesIn t) :
    ∀ c ∈ (Node.property (Property.parse l.content l.number)).children, ReadFrom t catalog c := by
  intro c hc
  rcases List.mem_append.mp hc with hc | hc
  · obtain ⟨k, hk, rfl⟩ := Option.map_eq_some_iff.mp (Option.mem_toList.mp hc)
    exact .text (h.key hk)
  · obtain ⟨v, hv, rfl⟩ := Option.map_eq_some_iff.mp (Option.mem_toList.mp hc)
    have hholds := h.value hv
    -- the same chunk either way, as a template or as plain text
    rw [Property.value_parse] at hv
    obtain ⟨i, -, rfl⟩ := Option.map_eq_some_iff.mp hv
    rw [Property.text_valueOf] at hholds
    unfold Property.valueOf
    split
    · exact .template hholds
    · exact .text hholds

/-- The parts of what is read from a text are read from it. -/
theorem ReadFrom.children {n : Node} (h : ReadFrom t catalog n) :
    ∀ c ∈ n.children, ReadFrom t catalog c := by
  cases h with
  | @script d lines ht hp =>
    intro c hc
    obtain ⟨b, hb, rfl⟩ := List.mem_map.mp hc
    obtain ⟨span, hspan, rfl⟩ := List.mem_map.mp hb
    obtain ⟨opening, body, hslice, -, -, hsection⟩ := BlockSpan.section_slice hp hspan
    subst ht
    rw [hslice]
    exact .block hsection
  | block hsection => exact readFrom_block hsection
  | property hl => exact readFrom_property hl
  | text _ =>
    intro c hc
    cases hc
  | template hholds =>
    intro c hc
    obtain ⟨e, he, rfl⟩ := List.mem_map.mp hc
    exact .expression hholds he
  | expression _ _ =>
    intro c hc
    cases hc

/-- The text of a chunk is what stands at its range. -/
theorem ReadFrom.holdsAt {n : Node} (h : ReadFrom t catalog n) :
    ∀ content ∈ n.content?, t.HoldsAt n.range content := by
  intro content hcontent
  cases h with
  | text hholds =>
    obtain rfl := Option.some.inj hcontent
    exact hholds
  | template hholds =>
    obtain rfl := Option.some.inj hcontent
    exact hholds
  | script _ _ => contradiction
  | block _ => contradiction
  | property _ => contradiction
  | expression _ _ => contradiction

/-- Every node of a script that is read from a document is read from its text. -/
theorem readFrom_of_mem_nodes {d : Document} {lines : List Line} (h : lines <+: d.lines) {n : Node}
    (hn : n ∈ (Node.script (.ofLines d.rawLines catalog lines)).nodes) :
    ReadFrom d.text catalog n :=
  forall_mem_nodes (fun _ => ReadFrom.children) (.script rfl h) n hn

end Node

end KafkaScript
