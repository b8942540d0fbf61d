import KafkaScript.Proofs.Tree
import KafkaScript.Script.Outline

/-!
# Ranges name the text they say

A script keeps texts and ranges that were computed apart: columns of a line,
bytes of a trimmed text, steps of a cursor. Asked for a range, the document
answers with the text that the script keeps (`Node.ReadFrom.faithful`). All of it
comes down to `Text.HoldsAt`, which says both at once.
-/

namespace KafkaScript

namespace Node

/-- What a node says of a document is what the document says itself. -/
structure Faithful (d : Document) (n : Node) : Prop where
  /-- A chunk keeps the text of its range. -/
  content : ∀ content ∈ n.content?, d.getText n.range = content
  /-- An expression is its inner text between two marks. -/
  closed : ∀ e, n = .expression e →
    d.getText e.range = openMark ++ d.getText e.inner ++ closeMark
  /-- An expression left open is its mark and all that follows in its chunk. -/
  unclosed : ∀ e ∈ n.unclosed?,
    d.getText e.range = openMark ++ d.getText e.inner ∧ e.range.stop = n.range.stop
  /-- The value of a property without the blanks around it has a range of its own. -/
  value : ∀ p, n = .property p → p.valueRange?.map d.getText = p.value?

variable {d : Document} {catalog : Catalog}

/-- A chunk stands where a walk over its text from the start of its range ends. -/
theorem holdsAt_walk {t : Text} {c : TextChunk} (h : t.HoldsAt c.range c.content) :
    t.HoldsAt ⟨c.range.start, c.range.start.walk c.content⟩ c.content := by
  rw [← h.stop_eq]
  exact h

theorem getText_expression {c : TextChunk} (h : d.text.HoldsAt c.range c.content) {e : Expression}
    (he : e ∈ (Template.ofChunk c).expressions) :
    d.getText e.range = openMark ++ d.getText e.inner ++ closeMark := by
  have hfinds := Pairing.finds_scan c.content c.range.start
  obtain ⟨inner, hinner, hrange⟩ := hfinds.holdsAt_closed (holdsAt_walk h) e he
  rw [Document.getText_of_holdsAt hrange, Document.getText_of_holdsAt hinner]

theorem getText_unclosed {c : TextChunk} (h : d.text.HoldsAt c.range c.content) {e : Expression}
    (he : e ∈ (Template.ofChunk c).unclosed) :
    d.getText e.range = openMark ++ d.getText e.inner ∧ e.range.stop = c.range.stop := by
  have hfinds := Pairing.finds_scan c.content c.range.start
  obtain ⟨hstop, inner, hinner, hrange⟩ := hfinds.holdsAt_unclosed (holdsAt_walk h) e he
  rw [Document.getText_of_holdsAt hrange, Document.getText_of_holdsAt hinner, h.stop_eq]
  exact ⟨rfl, hstop⟩

/-- No value of a property has a line feed, so it is trimmed on its line. -/
theorem getText_valueRange {l : Line} (h : l.LiesIn d.text) :
    (Property.parse l.content l.number).valueRange?.map d.getText =
      (Property.parse l.content l.number).value? := by
  unfold Property.valueRange? Property.value?
  cases hv : (Property.parse l.content l.number).value with
  | none => rfl
  | some v =>
    have hholds := h.value hv
    have hn : '\n' ∉ v.text.content := by
      rw [Property.value_parse] at hv
      rw [(Property.text_of_valueOf? hv).2]
      intro hm
      exact h.not_mem (List.mem_of_mem_drop (List.mem_of_mem_take hm))
    show some (d.getText _) = some v.text.content.trim
    rw [Document.getText_of_holdsAt (hholds.trim_onLine hn)]

/-- Whatever is read from a text says what the text says. -/
theorem ReadFrom.faithful {n : Node} (h : ReadFrom d.text catalog n) : n.Faithful d := by
  refine ⟨fun content hcontent => Document.getText_of_holdsAt (h.holdsAt content hcontent),
    ?_, ?_, ?_⟩
  · rintro e rfl
    cases h with
    | expression hholds he => exact getText_expression hholds he
  · intro e he
    cases h with
    | template hholds => exact getText_unclosed hholds he
    | script _ _ => contradiction
    | block _ => contradiction
    | property _ => contradiction
    | text _ => contradiction
    | expression _ _ => contradiction
  · rintro p rfl
    cases h with
    | property hl => exact getText_valueRange hl

end Node

/-- Every document is read, and everything that its script says of it is so. -/
theorem Script.read_faithful (d : Document) (catalog : Catalog) :
    ∃ s, read d catalog = .ok s ∧ ∀ n ∈ (Node.script s).nodes, n.Faithful d := by
  refine ⟨_, read_eq d catalog, ?_⟩
  intro n hn
  exact (Node.readFrom_of_mem_nodes (List.prefix_refl d.lines) hn).faithful

end KafkaScript
