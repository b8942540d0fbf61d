import Mathlib.Data.List.Nodup
import KafkaScript.Proofs.Nesting

/-!
# No line is lost or read twice

The lines of a block that carry something are cut once, at the line on which the
value begins (`ProducerBlock.carrying_eq`). Those before it are the properties, one
for one. From there on a line is covered by the value: the text of the line is a
piece of the text that is trimmed, and begins and ends with no blank, so trimming
leaves it alone (`Text.HoldsAt.exists_trimmed`).
-/

namespace KafkaScript

/-- The lines after one line up to another one. -/
def Document.linesAfter (d : Document) (start stop : Nat) : List Line :=
  (d.lines.drop (start + 1)).take (stop - start)

/-- Where the line stands without the blanks around it. -/
def Line.trimmedRange (l : Line) : Range :=
  .ofWidth ⟨l.number, l.content.leadingBlanks.length⟩ l.content.trim.length

/-- The value of a block, which consumers have none of. -/
def Block.value? : Block → Option Template
  | .producer b => b.value
  | .consumer _ => none

/-! ## The cut -/

namespace ProducerBlock

variable (catalog : Catalog) (ls : List Line)

/-- What is left of a body from the line on which the value begins. -/
def valueLines : List Line :=
  (Line.carrying ls).dropWhile (isProperty catalog)

theorem carrying_eq : propertyLines catalog ls ++ valueLines catalog ls = Line.carrying ls :=
  List.takeWhile_append_dropWhile

theorem valueLine?_eq_head? : valueLine? catalog ls = (valueLines catalog ls).head? := by
  unfold valueLine? valueLines
  generalize Line.carrying ls = cs
  induction cs with
  | nil => rfl
  | cons l cs ih =>
    by_cases hknown : isProperty catalog l = true
    · rw [List.find?_cons_of_neg (by simp [hknown]), List.dropWhile_cons_of_pos hknown, ih]
    · rw [List.find?_cons_of_pos (by simp [hknown]), List.dropWhile_cons_of_neg hknown]
      rfl

end ProducerBlock

/-! ## Counting properties -/

/-- A property begins on the line it is read from. -/
theorem Property.line_start_parse (content : Text) (line : Nat) :
    (parse content line).range.start.line = line := by
  have hinside := (inside_parse content line).1
  have hstart := hinside.le_start
  have hstop := le_trans hinside.ordered hinside.stop_le
  rw [Position.le_iff] at hstart hstop
  simp only [Range.ofWidth] at hstart hstop
  omega

/-- How many properties begin on a line. -/
def Property.countOn (properties : List Property) (line : Nat) : Nat :=
  properties.countP fun p => p.range.start.line == line

theorem Property.countOn_map (ls : List Line) (n : Nat) :
    countOn (ls.map fun l => parse l.content l.number) n = (ls.map (·.number)).count n := by
  rw [countOn, List.countP_map, List.count, List.countP_map]
  congr 1
  funext l
  simp only [Function.comp_apply, line_start_parse]

theorem Line.nodup_numbers {ls : List Line} (h : ls.Pairwise fun l m => l.number < m.number) :
    (ls.map (·.number)).Nodup :=
  List.pairwise_map.mpr (h.imp Nat.ne_of_lt)

/-- A line that is read as a property is read once. -/
theorem Property.countOn_eq_one {ls : List Line}
    (h : ls.Pairwise fun l m => l.number < m.number) {l : Line} (hl : l ∈ ls) :
    countOn (ls.map fun l => parse l.content l.number) l.number = 1 := by
  rw [countOn_map]
  exact List.count_eq_one_of_mem (Line.nodup_numbers h) (List.mem_map.mpr ⟨l, hl, rfl⟩)

/-- A line after all that are read as properties is read as none. -/
theorem Property.countOn_eq_zero {ls : List Line} {n : Nat} (h : ∀ l ∈ ls, l.number < n) :
    countOn (ls.map fun l => parse l.content l.number) n = 0 := by
  rw [countOn_map]
  apply List.count_eq_zero_of_not_mem
  intro hmem
  obtain ⟨l, hl, rfl⟩ := List.mem_map.mp hmem
  exact absurd (h l hl) (Nat.lt_irrefl _)

/-! ## The lines of the value -/

theorem Line.trim_ne_nil {l : Line} (h : l.isIgnored = false) : l.content.trim ≠ [] := by
  intro hnil
  have hblank : l.isBlank = true := by
    rw [isBlank, Text.trim_eq_nil_iff_trimStart.mp hnil]
    rfl
  rw [isIgnored, hblank] at h
  contradiction

/-- Trimming leaves alone what stands at a range within and neither begins nor ends
with a blank. -/
theorem Text.HoldsAt.exists_trimmed {t raw s : Text} {r r' : Range} (h : t.HoldsAt r raw)
    (h' : t.HoldsAt r' s) (hstart : r.start ≤ r'.start) (hstop : r'.stop ≤ r.stop) (hne : s ≠ [])
    (hhead : ∀ c, s.head? = some c → isBlank c = false)
    (hlast : ∀ c, s.getLast? = some c → isBlank c = false) :
    ∃ value, Template.trimmed? raw r.start = some value ∧ r'.Inside value.chunk.range := by
  obtain ⟨x, y, hcut, hwalk⟩ := h.exists_append h' hstart hstop
  obtain ⟨hlead, htrim⟩ := prefix_of_trim hcut hne hhead hlast
  -- the piece lies between what trimming takes away, so something is left
  have hraw : raw.trim ≠ [] := by
    intro hnil
    rw [hnil, List.append_nil] at htrim
    have hlen := (htrim.trans hlead).length_le
    have hpos := List.length_pos_iff.mpr hne
    rw [List.length_append] at hlen
    omega
  refine ⟨_, if_neg hraw, ?_, h'.start_le_stop, ?_⟩
  · show r.start.walk raw.leadingBlanks ≤ r'.start
    rw [hwalk]
    exact Position.walk_le_walk_of_prefix hlead r.start
  · show r'.stop ≤ r.start.walk (raw.leadingBlanks ++ raw.trim)
    rw [h'.stop_eq, hwalk, ← Position.walk_append]
    exact Position.walk_le_walk_of_prefix htrim r.start

namespace Section

variable {t : Text} {kind : BlockKind} {opening : Line} {body : List Line}

theorem holdsAt_trimmedRange (h : Section t kind opening body) {l : Line}
    (hl : l ∈ opening :: body) : t.HoldsAt l.trimmedRange l.content.trim := by
  have hlies := h.liesIn l hl
  obtain ⟨raw, hraw, heq⟩ := hlies
  have hline := Text.holdsAt_line hraw (Nat.zero_le raw.content.length) (Nat.le_refl _)
  rw [List.take_length, List.drop_zero, heq] at hline
  have htrim := hline.trim_onLine (h.liesIn l hl).not_mem
  rwa [Nat.zero_add] at htrim

theorem trimmedRange_inside (l : Line) : l.trimmedRange.Inside l.range := by
  have hcut := congrArg List.length l.content.leading_trim_trailing
  simp only [List.length_append] at hcut
  refine ⟨.inr ⟨rfl, Nat.zero_le _⟩, .inr ⟨rfl, Nat.le_add_right _ _⟩, .inr ⟨rfl, ?_⟩⟩
  show l.content.leadingBlanks.length + l.content.trim.length ≤ 0 + l.content.length
  omega

/-- A line that carries something, from the line of the value on, lies in what
trimming leaves of the text from that line to the end. -/
theorem exists_value (h : Section t kind opening body) {v l : Line} (hv : v ∈ opening :: body)
    (hl : l ∈ opening :: body) (hcarries : l.isIgnored = false) (hle : v.number ≤ l.number) :
    ∃ value, ProducerBlock.valueFrom? (RawLine.ofText t) (Script.rangeOf (opening :: body)).stop v =
        some value ∧ l.trimmedRange.Inside value.chunk.range := by
  have hinside := trimmedRange_inside l
  refine (h.holdsAt_rest hv).exists_trimmed (h.holdsAt_trimmedRange hl) ?_ ?_
    (Line.trim_ne_nil hcarries) (fun _ => Text.isBlank_head_trim) (fun _ => Text.isBlank_getLast_trim)
  · refine le_trans ?_ hinside.le_start
    rw [Position.le_iff]
    show v.number < l.number ∨ v.number = l.number ∧ 0 ≤ 0
    omega
  · exact le_trans hinside.stop_le (h.inside_range hl).stop_le

end Section

/-! ## Blocks -/

/-- What a block has to say of the lines after its opening line. A consumer has one
property for each line that carries something. A producer has one for each of those
before the line on which its value begins, and a value if there is such a line. -/
def Block.Reads (d : Document) (catalog : Catalog) (body : List Line) : Block → Prop
  | .consumer b =>
    b.properties = (Line.carrying body).map fun l => Property.parse l.content l.number
  | .producer b =>
    b.properties = (ProducerBlock.propertyLines catalog body).map
        (fun l => Property.parse l.content l.number) ∧
      match ProducerBlock.valueLine? catalog body with
      | none => b.value = none
      | some v => ∃ value, b.value = some value ∧ value.chunk.range.start.line = v.number ∧
        value.chunk.content = (d.getText ⟨⟨v.number, 0⟩, b.range.stop⟩).trim ∧
        value.chunk.content ≠ []

/-- A line is read as one property and lies before the value, or it is read as none
and lies within the value. -/
def Block.ReadsOnce (b : Block) (l : Line) : Prop :=
  Property.countOn b.properties l.number = 1 ∧
      (∀ value ∈ b.value?, l.number < value.chunk.range.start.line) ∨
    Property.countOn b.properties l.number = 0 ∧
      ∃ value ∈ b.value?, l.trimmedRange.Inside value.chunk.range

namespace Section

variable {d : Document} {opening : Line} {body : List Line} {catalog : Catalog}

theorem pairwise_body {t : Text} {kind : BlockKind} (h : Section t kind opening body) :
    (Line.carrying body).Pairwise fun l m => l.number < m.number :=
  (List.pairwise_cons.mp h.numbered.pairwise).2.sublist List.filter_sublist

/-- The value begins on its line, with what is not blank there. -/
theorem value_eq {t : Text} {kind : BlockKind} (h : Section t kind opening body) {v : Line}
    (hv : ProducerBlock.valueLine? catalog body = some v) : ∃ value,
      ProducerBlock.valueFrom? (RawLine.ofText t) (Script.rangeOf (opening :: body)).stop v =
        some value ∧ value.chunk.range.start.line = v.number := by
  have hmem := List.mem_cons_of_mem opening (ProducerBlock.mem_of_valueLine? hv)
  have hcarries := (Line.mem_carrying.mp (List.mem_of_find?_eq_some hv)).2
  obtain ⟨value, hvalue, hinside⟩ := h.exists_value hmem hmem hcarries (Nat.le_refl _)
  refine ⟨value, hvalue, ?_⟩
  -- the value begins after the start of the line and no later than its text
  have hlow := (h.inside_value hmem hvalue).le_start
  have hhigh := hinside.le_start
  rw [Position.le_iff] at hlow hhigh
  simp only [Line.trimmedRange, Range.ofWidth] at hlow hhigh
  omega

theorem reads_producer (h : Section d.text .producer opening body) :
    (Block.ofLines d.rawLines catalog .producer (opening :: body)).Reads d catalog body := by
  refine ⟨rfl, ?_⟩
  cases hv : ProducerBlock.valueLine? catalog body with
  | none =>
    show (ProducerBlock.valueLine? catalog body).bind _ = none
    rw [hv]
    rfl
  | some v =>
    obtain ⟨value, hvalue, hline⟩ := h.value_eq hv
    obtain ⟨hblank, heq⟩ := Template.eq_of_trimmed? hvalue
    refine ⟨value, ?_, hline, ?_, ?_⟩
    · show (ProducerBlock.valueLine? catalog body).bind _ = some value
      rw [hv]
      exact hvalue
    · rw [heq]
      rfl
    · rw [heq]
      exact hblank

theorem readsOnce_consumer (h : Section d.text .consumer opening body) :
    ∀ l ∈ Line.carrying body,
      (Block.ofLines d.rawLines catalog .consumer (opening :: body)).ReadsOnce l := by
  intro l hl
  refine .inl ⟨Property.countOn_eq_one h.pairwise_body hl, ?_⟩
  intro value hvalue
  contradiction

theorem readsOnce_producer (h : Section d.text .producer opening body) :
    ∀ l ∈ Line.carrying body,
      (Block.ofLines d.rawLines catalog .producer (opening :: body)).ReadsOnce l := by
  have horder := h.pairwise_body
  rw [← ProducerBlock.carrying_eq catalog body, List.pairwise_append] at horder
  obtain ⟨hproperties, hvalues, hcut⟩ := horder
  have hhead := ProducerBlock.valueLine?_eq_head? catalog body
  intro l hl
  obtain ⟨hmem, hcarries⟩ := Line.mem_carrying.mp hl
  have hbody := List.mem_cons_of_mem opening hmem
  rw [← ProducerBlock.carrying_eq catalog body] at hl
  rcases List.mem_append.mp hl with hl | hl
  · -- a property, on a line before all lines of the value
    refine .inl ⟨Property.countOn_eq_one hproperties hl, ?_⟩
    intro value hvalue
    obtain ⟨v, hv, hfrom⟩ := Option.bind_eq_some_iff.mp hvalue
    obtain ⟨value', hfrom', hline⟩ := h.value_eq hv
    obtain rfl : value = value' := Option.some.inj (hfrom.symm.trans hfrom')
    rw [hline]
    exact hcut l hl v (List.mem_of_head? (hhead.symm.trans hv))
  · -- a line of the value, which begins no later than here
    refine .inr ⟨Property.countOn_eq_zero fun m hm => hcut m hm l hl, ?_⟩
    obtain ⟨v, vs, hvs⟩ := List.exists_cons_of_ne_nil (List.ne_nil_of_mem hl)
    have hv : ProducerBlock.valueLine? catalog body = some v := by rw [hhead, hvs]; rfl
    have hle : v.number ≤ l.number := by
      rw [hvs] at hl hvalues
      rcases List.mem_cons.mp hl with rfl | hl
      · exact Nat.le_refl _
      · exact Nat.le_of_lt ((List.pairwise_cons.mp hvalues).1 l hl)
    have hmem := List.mem_cons_of_mem opening (ProducerBlock.mem_of_valueLine? hv)
    obtain ⟨value, hvalue, hinside⟩ := h.exists_value hmem hbody hcarries hle
    exact ⟨value, Option.bind_eq_some_iff.mpr ⟨v, hv, hvalue⟩, hinside⟩

end Section

/-- Every document is read, and every block in it reads its lines as it should: each
line that carries something once, as a property or within the value. -/
theorem Script.read_readsLines (d : Document) (catalog : Catalog) :
    ∃ s, read d catalog = .ok s ∧ ∀ b ∈ s.blocks,
      b.Reads d catalog (d.linesAfter b.range.start.line b.range.stop.line) ∧
        ∀ l ∈ d.linesAfter b.range.start.line b.range.stop.line, l.isIgnored = false →
          b.ReadsOnce l := by
  refine ⟨_, read_eq d catalog, ?_⟩
  intro b hb
  obtain ⟨span, hspan, rfl⟩ := List.mem_map.mp hb
  have hp := List.prefix_refl d.lines
  obtain ⟨opening, body, hslice, hnumber, hbody, hsection⟩ := BlockSpan.section_slice hp hspan
  rw [BlockSpan.range_block hp hspan, BlockSpan.line_stop_slice d.numbered_lines hspan,
    Document.linesAfter, ← hbody, hslice]
  cases hkind : span.kind with
  | producer =>
    rw [hkind] at hsection
    refine ⟨hsection.reads_producer, ?_⟩
    intro l hl hcarries
    exact hsection.readsOnce_producer l (Line.mem_carrying.mpr ⟨hl, hcarries⟩)
  | consumer =>
    rw [hkind] at hsection
    refine ⟨rfl, ?_⟩
    intro l hl hcarries
    exact hsection.readsOnce_consumer l (Line.mem_carrying.mpr ⟨hl, hcarries⟩)

end KafkaScript
