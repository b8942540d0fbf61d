import KafkaScript.Proofs.Rows
import KafkaScript.Proofs.Tree

/-!
# The outline determines the script

An outline leaves out the column of the assigner, the inner ranges of expressions
and whether a value is a template. All of it follows from what the outline does
show, because scripts are read: a property is determined by its chunks and its range
(`Property.parse_eq_ofChunks`), a template by its chunk. Two nodes with the same rows
are therefore the same, which is shown for one level after the other: chunks
(`chunk?_eq_of_label`), properties (`property?_eq_of_rows`), blocks
(`block?_eq_of_rows`) and the script (`Script.eq_of_outline`).
-/

namespace KafkaScript

/-- What agrees on two lists also agrees on their parts if it decides them. -/
theorem filterMap_eq_of_map_eq {α β γ : Type} {f : α → β} {g : α → Option γ} {as bs : List α}
    (hfg : ∀ a ∈ as, ∀ b ∈ bs, f a = f b → g a = g b) (h : as.map f = bs.map f) :
    as.filterMap g = bs.filterMap g := by
  induction as generalizing bs with
  | nil =>
    cases bs with
    | nil => rfl
    | cons b bs => simp at h
  | cons a as ih =>
    cases bs with
    | nil => simp at h
    | cons b bs =>
      obtain ⟨hhead, htail⟩ := List.cons.inj h
      have hab := hfg a List.mem_cons_self b List.mem_cons_self hhead
      have hrest := ih (fun x hx y hy =>
        hfg x (List.mem_cons_of_mem _ hx) y (List.mem_cons_of_mem _ hy)) htail
      rw [List.filterMap_cons, List.filterMap_cons, hab, hrest]

/-! ## What the parts of a property determine -/

namespace Property

/-- The key and the value as they stand in the text. -/
def chunks (p : Property) : List TextChunk :=
  p.key.toList ++ (p.value.map (·.text)).toList

/-- The property with these chunks at a range. -/
def ofChunks (chunks : List TextChunk) (range : Range) : Property :=
  let key := chunks.find? (·.kind == .propertyKey)
  let value := chunks.find? (·.kind == .propertyValue)
  ⟨key, value.map (·.range.start.character - 1), value.map (valueOf key), range⟩

variable (content : Text) (line : Nat)

/-- The value of a line as it stands in the text. -/
def valueText? : Option TextChunk :=
  (assignerOf? content).map fun i => chunkOf content line (i + 1) content.length .propertyValue

theorem chunks_parse : (parse content line).chunks =
    (keyOf? content line).toList ++ (valueText? content line).toList := by
  rw [chunks, key_parse, value_parse, valueOf?, Option.map_map]
  simp only [Function.comp_def, text_valueOf, valueText?]

/-- The kinds of its two chunks tell them apart. -/
theorem find?_chunks_parse :
    (parse content line).chunks.find? (·.kind == .propertyKey) = keyOf? content line ∧
      (parse content line).chunks.find? (·.kind == .propertyValue) = valueText? content line := by
  rw [chunks_parse, valueText?]
  cases hkey : keyOf? content line with
  | none => cases assignerOf? content <;> exact ⟨rfl, rfl⟩
  | some k =>
    obtain ⟨start, -, rfl⟩ := eq_chunkOf_of_keyOf? hkey
    cases assignerOf? content <;> exact ⟨rfl, rfl⟩

/-- A property that is read is determined by its chunks: the assigner stands right
before the value, and the key decides what kind of value that is. -/
theorem parse_eq_ofChunks : parse content line =
    ofChunks (parse content line).chunks (parse content line).range := by
  obtain ⟨hkey, hvalue⟩ := find?_chunks_parse content line
  have hassigner : (valueText? content line).map (·.range.start.character - 1) =
      assignerOf? content := by
    simp [valueText?, chunkOf, Function.comp_def]
  have hvalueOf : (valueText? content line).map (valueOf (keyOf? content line)) =
      valueOf? content line := by
    rw [valueText?, Option.map_map]
    rfl
  rw [ofChunks, hkey, hvalue, hassigner, hvalueOf, parse_eq]
  rfl

end Property

theorem NodeKind.ofChunk_injective : Function.Injective ofChunk := by
  intro k k' h
  cases k <;> cases k' <;> first | rfl | contradiction

namespace Node

/-! ## Chunks -/

/-- The chunk of a node that is one. -/
def chunk? : Node → Option TextChunk
  | text c => some c
  | template t => some t.chunk
  | _ => none

theorem chunk?_eq_some {n : Node} {c : TextChunk} (h : n.chunk? = some c) :
    n.kind = .ofChunk c.kind ∧ n.range = c.range ∧ n.remark = ' ' :: c.content.quoted := by
  cases n with
  | text c' =>
    obtain rfl := Option.some.inj h
    exact ⟨rfl, rfl, rfl⟩
  | template t =>
    obtain rfl := Option.some.inj h
    exact ⟨rfl, rfl, rfl⟩
  | script s => contradiction
  | block b => contradiction
  | property p => contradiction
  | expression e => contradiction

theorem exists_chunk {n : Node} {kind : ChunkKind} (h : n.kind = .ofChunk kind) :
    ∃ c, n.chunk? = some c := by
  cases n with
  | text c => exact ⟨c, rfl⟩
  | template t => exact ⟨t.chunk, rfl⟩
  | block b => cases b <;> cases kind <;> contradiction
  | script s => cases kind <;> contradiction
  | property p => cases kind <;> contradiction
  | expression e => cases kind <;> contradiction

/-- Nothing about a chunk is left out of its row. -/
theorem eq_of_chunk? {n m : Node} {c c' : TextChunk} (h : n.label = m.label)
    (hn : n.chunk? = some c) (hm : m.chunk? = some c') : c = c' := by
  obtain ⟨hkind, hrange, hremark⟩ := eq_of_label h
  obtain ⟨hnk, hnr, hnc⟩ := chunk?_eq_some hn
  obtain ⟨hmk, hmr, hmc⟩ := chunk?_eq_some hm
  rw [hnk, hmk] at hkind
  rw [hnr, hmr] at hrange
  rw [hnc, hmc] at hremark
  have hcontent := Text.quoted_injective (List.cons.inj hremark).2
  have hkind := NodeKind.ofChunk_injective hkind
  cases c
  cases c'
  simp_all

theorem chunk?_eq_of_label {n m : Node} (h : n.label = m.label) : n.chunk? = m.chunk? := by
  have hkind := (eq_of_label h).1
  cases hn : n.chunk? with
  | some c =>
    obtain ⟨c', hm⟩ := exists_chunk (hkind.symm.trans (chunk?_eq_some hn).1)
    rw [hm, eq_of_chunk? h hn hm]
  | none =>
    cases hm : m.chunk? with
    | none => rfl
    | some c' =>
      obtain ⟨c, hc⟩ := exists_chunk (hkind.trans (chunk?_eq_some hm).1)
      rw [hc] at hn
      contradiction

/-- The parts of a node that are chunks. -/
def chunks (n : Node) : List TextChunk :=
  n.children.filterMap chunk?

/-- The rows of a node tell the chunks in it. -/
theorem chunks_eq_of_rows {depth : Nat} {n m : Node}
    (h : n.children.map (rows depth) = m.children.map (rows depth)) : n.chunks = m.chunks :=
  filterMap_eq_of_map_eq (fun _ _ _ _ hab => chunk?_eq_of_label (label_eq_of_rows hab)) h

/-! ## Properties -/

variable {t t' : Text} {catalog catalog' : Catalog}

def property? : Node → Option Property
  | property p => some p
  | _ => none

theorem exists_property {n : Node} (h : n.kind = .property) : ∃ p, n = property p := by
  cases n with
  | property p => exact ⟨p, rfl⟩
  | text c => exact absurd h (by rw [kind]; cases c.kind <;> decide)
  | template t => exact absurd h (by rw [kind]; cases t.chunk.kind <;> decide)
  | block b => cases b <;> contradiction
  | script s => contradiction
  | expression e => contradiction

theorem property?_eq_none {n : Node} (h : n.kind ≠ .property) : n.property? = none := by
  cases n with
  | property p => exact absurd rfl h
  | text c => rfl
  | template t => rfl
  | block b => rfl
  | script s => rfl
  | expression e => rfl

theorem filterMap_chunk?_property (ps : List Property) :
    (ps.map property).filterMap chunk? = [] := by
  simp [List.filterMap_map, Function.comp_def, chunk?]

theorem chunks_property (p : Property) : (property p).chunks = p.chunks := by
  have hkey : ∀ k, (text k).chunk? = some k := fun _ => rfl
  have hvalue : ∀ v, (ofChunk v).chunk? = some v.text := by
    intro v
    cases v <;> rfl
  rw [chunks, children, List.filterMap_append, Property.chunks]
  cases p.key <;> cases p.value <;> simp [hkey, hvalue]

/-- Two properties that were read are the same if their rows are. -/
theorem property?_eq_of_rows {depth : Nat} {n m : Node} (hn : ReadFrom t catalog n)
    (hm : ReadFrom t' catalog' m) (h : n.rows depth = m.rows depth) :
    n.property? = m.property? := by
  have hkind := (eq_of_label (label_eq_of_rows h)).1
  by_cases hk : n.kind = .property
  · obtain ⟨p, rfl⟩ := exists_property hk
    obtain ⟨q, rfl⟩ := exists_property (hkind.symm.trans hk)
    have hparts := map_rows_children rfl rfl h
    have hrange : p.range = q.range := (eq_of_label (label_eq_of_rows h)).2.1
    have hchunks : p.chunks = q.chunks := by
      rw [← chunks_property, ← chunks_property]
      exact chunks_eq_of_rows hparts
    -- both were read from a line, so their chunks and ranges decide
    cases hn
    cases hm
    show some _ = some _
    rw [Property.parse_eq_ofChunks, hchunks, hrange, ← Property.parse_eq_ofChunks]
  · rw [property?_eq_none hk, property?_eq_none (hkind ▸ hk)]

/-- The parts of a node that are properties. -/
def properties (n : Node) : List Property :=
  n.children.filterMap property?

theorem filterMap_property?_property (ps : List Property) :
    (ps.map property).filterMap property? = ps := by
  simp [List.filterMap_map, Function.comp_def, property?]

/-! ## Blocks -/

end Node

/-- The block of a kind with these parts at a range. -/
def Block.ofParts (kind : BlockKind) (range : Range) (properties : List Property)
    (chunks : List TextChunk) : Block :=
  match kind with
  | .producer => .producer ⟨range, properties, chunks.head?.map .ofChunk⟩
  | .consumer => .consumer ⟨range, chunks.head?.getD default, properties⟩

namespace Node

/-- A block that is read is determined by its parts. -/
theorem eq_ofParts {b : Block} (h : ReadFrom t catalog (block b)) :
    b = .ofParts b.kind b.range (block b).properties (block b).chunks := by
  cases b with
  | producer b =>
    have hproperties : (block (.producer b)).properties = b.properties := by
      rw [properties, children, List.filterMap_append, filterMap_property?_property]
      cases b.value <;> simp [property?]
    have hchunks : (block (.producer b)).chunks = (b.value.map (·.chunk)).toList := by
      rw [chunks, children, List.filterMap_append, filterMap_chunk?_property]
      cases b.value <;> simp [chunk?]
    -- its value was read as the template of a chunk
    have hvalue : b.value = (b.value.map (·.chunk)).map .ofChunk := by
      cases hv : b.value with
      | none => rfl
      | some v =>
        have hmem : template v ∈ (block (.producer b)).children := by simp [children, hv]
        cases h.children _ hmem with
        | template _ => rfl
    rw [hproperties, hchunks]
    show Block.producer b = .producer ⟨b.range, b.properties, _⟩
    rw [Option.head?_toList, ← hvalue]
  | consumer b =>
    have hproperties : (block (.consumer b)).properties = b.properties :=
      filterMap_property?_property b.properties
    have hchunks : (block (.consumer b)).chunks = [b.groupId] :=
      congrArg (b.groupId :: ·) (filterMap_chunk?_property b.properties)
    rw [hproperties, hchunks]
    rfl

def block? : Node → Option Block
  | block b => some b
  | _ => none

theorem exists_block {n : Node} {kind : BlockKind} (h : n.kind = .ofBlock kind) :
    ∃ b, n = block b ∧ b.kind = kind := by
  cases n with
  | block b =>
    refine ⟨b, rfl, ?_⟩
    cases b <;> cases kind <;> first | rfl | contradiction
  | text c => exact absurd h (by rw [Node.kind]; cases c.kind <;> cases kind <;> decide)
  | template t => exact absurd h (by rw [Node.kind]; cases t.chunk.kind <;> cases kind <;> decide)
  | script s => cases kind <;> contradiction
  | property p => cases kind <;> contradiction
  | expression e => cases kind <;> contradiction

theorem block?_eq_none {n : Node} (h : ∀ kind, n.kind ≠ .ofBlock kind) : n.block? = none := by
  cases n with
  | block b => exact absurd rfl (h b.kind)
  | text c => rfl
  | template t => rfl
  | script s => rfl
  | property p => rfl
  | expression e => rfl

/-- Two blocks that were read are the same if their rows are. -/
theorem block?_eq_of_rows {depth : Nat} {n m : Node} (hn : ReadFrom t catalog n)
    (hm : ReadFrom t' catalog' m) (h : n.rows depth = m.rows depth) : n.block? = m.block? := by
  have hkind := (eq_of_label (label_eq_of_rows h)).1
  by_cases hk : ∃ kind, n.kind = .ofBlock kind
  · obtain ⟨kind, hk⟩ := hk
    obtain ⟨b, rfl, rfl⟩ := exists_block hk
    obtain ⟨b', rfl, hkind'⟩ := exists_block (hkind.symm.trans hk)
    have hparts := map_rows_children rfl rfl h
    have hrange : b.range = b'.range := (eq_of_label (label_eq_of_rows h)).2.1
    have hproperties : (block b).properties = (block b').properties :=
      filterMap_eq_of_map_eq (fun x hx y hy hxy =>
        property?_eq_of_rows (hn.children x hx) (hm.children y hy) hxy) hparts
    refine congrArg some ?_
    calc b = .ofParts b.kind b.range (block b).properties (block b).chunks := eq_ofParts hn
      _ = .ofParts b'.kind b'.range (block b').properties (block b').chunks := by
        rw [hkind', hrange, hproperties, chunks_eq_of_rows hparts]
      _ = b' := (eq_ofParts hm).symm
  · have hk' : ∀ kind, n.kind ≠ .ofBlock kind := fun kind heq => hk ⟨kind, heq⟩
    rw [block?_eq_none hk', block?_eq_none (hkind ▸ hk')]

end Node

namespace Script

/-- Two scripts that were read are the same if their outlines are. -/
theorem eq_of_outline {s s' : Script} {t t' : Text} {catalog catalog' : Catalog}
    (hs : Node.ReadFrom t catalog (.script s)) (hs' : Node.ReadFrom t' catalog' (.script s'))
    (h : s.outline = s'.outline) : s = s' := by
  have hrows : (Node.script s).rows 0 = (Node.script s').rows 0 := by
    refine Row.flatMap_line_inj Node.proper_of_mem_rows Node.proper_of_mem_rows ?_
    rw [← Node.outline_eq, ← Node.outline_eq]
    exact h
  have hparts := Node.map_rows_children rfl rfl hrows
  have hrange : s.range = s'.range := (Node.eq_of_label (Node.label_eq_of_rows hrows)).2.1
  have hblocks : ∀ x : Script, (Node.script x).children.filterMap Node.block? = x.blocks := by
    intro x
    simp [Node.children, List.filterMap_map, Function.comp_def, Node.block?]
  have heq : s.blocks = s'.blocks := by
    rw [← hblocks s, ← hblocks s']
    exact filterMap_eq_of_map_eq (fun a ha b hb hab =>
      Node.block?_eq_of_rows (hs.children a ha) (hs'.children b hb) hab) hparts
  cases s
  cases s'
  simp_all

/-- Whatever two documents say and whatever catalogs they are read with, they are
read as the same script exactly if the outlines are the same. -/
theorem read_outline (d e : Document) (catalog catalog' : Catalog) :
    ∃ s s', read d catalog = .ok s ∧ read e catalog' = .ok s' ∧
      (s.outline = s'.outline ↔ s = s') := by
  refine ⟨_, _, read_eq d catalog, read_eq e catalog', ?_, fun h => by rw [h]⟩
  exact eq_of_outline (.script rfl (List.prefix_refl d.lines))
    (.script rfl (List.prefix_refl e.lines))

end Script

end KafkaScript
