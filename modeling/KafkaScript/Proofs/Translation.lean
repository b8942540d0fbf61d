import KafkaScript.Proofs.Reading

/-!
# Reading does not depend on where a text begins

Moved down by some lines, a text has the same expressions, a line the same
property and a block the same parts, all moved down with it. Each function that
reads something commutes with `down`; the one for blocks (`Block.ofLines_down`) puts
the others together.
-/

namespace KafkaScript

/-! ## Moving down -/

/-- The same range `n` lines further down. -/
def Range.down (n : Nat) (r : Range) : Range :=
  ⟨r.start.down n, r.stop.down n⟩

def TextChunk.down (n : Nat) (c : TextChunk) : TextChunk :=
  { c with range := c.range.down n }

def Expression.down (n : Nat) (e : Expression) : Expression :=
  { e with range := e.range.down n, inner := e.inner.down n }

def Template.down (n : Nat) (t : Template) : Template :=
  ⟨t.chunk.down n, t.expressions.map (Expression.down n), t.unclosed.map (Expression.down n)⟩

def Chunk.down (n : Nat) : Chunk → Chunk
  | .literal c => .literal (c.down n)
  | .dynamic t => .dynamic (t.down n)

/-- The assigner stays where it is on its line. -/
def Property.down (n : Nat) (p : Property) : Property :=
  ⟨p.key.map (TextChunk.down n), p.assigner, p.value.map (Chunk.down n), p.range.down n⟩

def Block.down (n : Nat) : Block → Block
  | .producer b => .producer
      ⟨b.range.down n, b.properties.map (Property.down n), b.value.map (Template.down n)⟩
  | .consumer b => .consumer
      ⟨b.range.down n, b.groupId.down n, b.properties.map (Property.down n)⟩

def Opening.down (n : Nat) (o : Opening) : Opening :=
  ⟨o.start.down n, o.innerStart.down n⟩

def Pairing.down (n : Nat) (found : Pairing) : Pairing :=
  ⟨found.closed.map (Expression.down n), found.unclosed.map (Expression.down n)⟩

def Cursor.down (n : Nat) (c : Cursor) : Cursor :=
  { c with pos := c.pos.down n }

/-! ## Expressions -/

variable (n : Nat)

theorem Cursor.advance_down (c : Cursor) : (c.down n).advance = c.advance.down n := by
  rcases c with ⟨rest, index, pos⟩
  have hnext : pos.line + n + 1 = pos.line + 1 + n := by omega
  simp only [advance, down, Position.down]
  split <;> simp only [hnext]

theorem Cursor.advanceN_down (k : Nat) (c : Cursor) :
    (c.down n).advanceN k = (c.advanceN k).down n := by
  induction k generalizing c with
  | zero => rfl
  | succ k ih =>
    have hend : (c.down n).atEnd = c.atEnd := rfl
    rw [advanceN, advanceN, hend]
    split
    · rfl
    · rw [advance_down, ih]

theorem Pairing.scanFrom_down (pending : Option Opening) (c : Cursor) :
    scanFrom (pending.map (Opening.down n)) (c.down n) = (scanFrom pending c).down n := by
  induction pending, c using scanFrom.induct with
  | case1 pending c hend =>
    rw [scanFrom_of_nil _ hend, scanFrom_of_nil (c := c.down n) _ hend]
    cases pending <;> rfl
  | case2 c hne hopen ih =>
    have hstep := scanFrom_open (c := c.down n) hne hopen
    rw [Cursor.advanceN_down] at hstep
    rw [scanFrom_open hne hopen, ← ih]
    exact hstep
  | case3 c hne hopen ih =>
    rw [scanFrom_plain hne hopen, ← ih, ← Cursor.advance_down]
    exact scanFrom_plain (c := c.down n) hne hopen
  | case4 c hne o hclose ih =>
    have hstep := scanFrom_close (c := c.down n) (o := o.down n) hne hclose
    simp only [Option.map_none] at ih
    rw [Cursor.advanceN_down, ih] at hstep
    rw [scanFrom_close hne hclose]
    exact hstep
  | case5 c hne o hclose ih =>
    rw [scanFrom_inner hne hclose, ← ih, ← Cursor.advance_down]
    exact scanFrom_inner (c := c.down n) hne hclose

theorem Template.ofChunk_down (c : TextChunk) : ofChunk (c.down n) = (ofChunk c).down n := by
  have hscan : Pairing.scan c.content (c.range.start.down n) =
      (Pairing.scan c.content c.range.start).down n :=
    Pairing.scanFrom_down n none (.start c.content c.range.start)
  unfold ofChunk
  show (⟨_, (Pairing.scan c.content (c.range.start.down n)).closed,
    (Pairing.scan c.content (c.range.start.down n)).unclosed⟩ : Template) = _
  rw [hscan]
  rfl

theorem Template.trimmed?_down (raw : Text) (origin : Position) :
    trimmed? raw (origin.down n) = (trimmed? raw origin).map (Template.down n) := by
  unfold trimmed?
  split
  · rfl
  · rw [Position.walk_down, Position.walk_down, Option.map_some, ← ofChunk_down]
    rfl

/-! ## Properties -/

namespace Property

theorem keyOf?_down (content : Text) (line : Nat) :
    keyOf? content (line + n) = (keyOf? content line).map (TextChunk.down n) := by
  unfold keyOf?
  rw [Option.map_map]
  rfl

theorem valueOf_down (key : Option TextChunk) (c : TextChunk) :
    valueOf (key.map (TextChunk.down n)) (c.down n) = (valueOf key c).down n := by
  have hkey : (key.map (TextChunk.down n)).any (·.content.trim == templateName) =
      key.any (·.content.trim == templateName) := by
    cases key <;> rfl
  unfold valueOf
  rw [hkey]
  split
  · rw [Template.ofChunk_down]
    rfl
  · rfl

theorem valueOf?_down (content : Text) (line : Nat) :
    valueOf? content (line + n) = (valueOf? content line).map (Chunk.down n) := by
  unfold valueOf?
  rw [Option.map_map, keyOf?_down]
  congr 1
  funext i
  exact valueOf_down n (keyOf? content line)
    (chunkOf content line (i + 1) content.length .propertyValue)

theorem text_down (v : Chunk) : (v.down n).text = v.text.down n := by
  cases v <;> rfl

theorem build_down (key : Option TextChunk) (assigner : Option Nat) (value : Option Chunk)
    (line : Range) :
    build (key.map (TextChunk.down n)) assigner (value.map (Chunk.down n)) (line.down n) =
      (build key assigner value line).down n := by
  cases key with
  | none =>
    cases value with
    | none => rfl
    | some v => simp only [build, down, Option.map_some, Option.map_none, text_down]; rfl
  | some k =>
    cases value with
    | none => rfl
    | some v => simp only [build, down, Option.map_some, text_down]; rfl

theorem parse_down (content : Text) (line : Nat) :
    parse content (line + n) = (parse content line).down n := by
  rw [parse_eq, parse_eq, keyOf?_down, valueOf?_down, ← build_down]
  rfl

end Property

/-! ## Blocks -/

theorem Line.carrying_down (ls : List Line) :
    carrying (ls.map (Line.down n)) = (carrying ls).map (Line.down n) := by
  unfold carrying
  rw [List.filter_map]
  rfl

theorem Property.map_parse_down (ls : List Line) :
    ((ls.map (Line.down n)).map fun l => parse l.content l.number) =
      (ls.map fun l => parse l.content l.number).map (Property.down n) := by
  rw [List.map_map, List.map_map]
  congr 1
  funext l
  exact parse_down n l.content l.number

theorem Script.stop_rangeOf_down {ls : List Line} (h : ls ≠ []) :
    (rangeOf (ls.map (Line.down n))).stop = (rangeOf ls).stop.down n := by
  rw [rangeOf, rangeOf, List.getLast?_map, List.getLast?_eq_some_getLast h]
  rfl

namespace ProducerBlock

variable (catalog : Catalog)

theorem propertyLines_down (ls : List Line) :
    propertyLines catalog (ls.map (Line.down n)) = (propertyLines catalog ls).map (Line.down n) := by
  unfold propertyLines
  rw [Line.carrying_down, List.takeWhile_map]
  rfl

theorem valueLine?_down (ls : List Line) :
    valueLine? catalog (ls.map (Line.down n)) = (valueLine? catalog ls).map (Line.down n) := by
  unfold valueLine?
  rw [Line.carrying_down, List.find?_map]
  rfl

end ProducerBlock

namespace RawLine

/-- The lines in front of some lines only move what is asked for. -/
theorem textBetween_append_down (la lb : List RawLine) (p q : Position) :
    textBetween (la ++ lb) (p.down la.length) (q.down la.length) = textBetween lb p q := by
  induction la with
  | nil => rfl
  | cons l la ih => exact ih

end RawLine

theorem ProducerBlock.valueFrom?_down (la lb : List RawLine) (stop : Position) (l : Line) :
    valueFrom? (la ++ lb) (stop.down la.length) (l.down la.length) =
      (valueFrom? lb stop l).map (Template.down la.length) := by
  unfold valueFrom?
  rw [← Template.trimmed?_down]
  exact congrArg (Template.trimmed? · _) (RawLine.textBetween_append_down la lb ⟨l.number, 0⟩ stop)

/-- A block of lines further down in a longer text is the same block further down. -/
theorem Block.ofLines_down (la lb : List RawLine) (catalog : Catalog) (kind : BlockKind)
    (opening : Line) (body : List Line) :
    ofLines (la ++ lb) catalog kind ((opening :: body).map (Line.down la.length)) =
      (ofLines lb catalog kind (opening :: body)).down la.length := by
  have hstop := Script.stop_rangeOf_down la.length (List.cons_ne_nil opening body)
  unfold ofLines
  rw [hstop, List.map_cons, List.tail_cons, List.tail_cons]
  cases kind with
  | producer =>
    have hvalue : (ProducerBlock.valueLine? catalog (body.map (Line.down la.length))).bind
        (ProducerBlock.valueFrom? (la ++ lb)
          ((Script.rangeOf (opening :: body)).stop.down la.length)) =
        ((ProducerBlock.valueLine? catalog body).bind (ProducerBlock.valueFrom? lb
          (Script.rangeOf (opening :: body)).stop)).map (Template.down la.length) := by
      rw [ProducerBlock.valueLine?_down]
      cases ProducerBlock.valueLine? catalog body with
      | none => rfl
      | some l => exact ProducerBlock.valueFrom?_down la lb _ l
    simp only [hvalue, ProducerBlock.propertyLines_down, Property.map_parse_down]
    rfl
  | consumer =>
    have hgroup : ConsumerBlock.groupIdOf (opening.down la.length) =
        (ConsumerBlock.groupIdOf opening).down la.length := rfl
    simp only [ConsumerBlock.read_eq, hgroup, Line.carrying_down, Property.map_parse_down]
    rfl

end KafkaScript
