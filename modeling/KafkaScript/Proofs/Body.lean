import KafkaScript.Proofs.Property
import KafkaScript.Block.Body

/-!
# The body of a block in closed form

None of the faults that reading a block guards against arises. The cursor that is
sent to both ends of a trimmed text gets there (`Template.ofRaw?_eq`), and the
body of a producer block is cut once (`ProducerBlock.readBody_eq`): of the lines
that carry something, those before the first one that is no known property are
the properties, and that one begins the value.
-/

namespace KafkaScript

open Text (Seam)

/-- The piece without the blanks around it, on one line. -/
theorem Text.HoldsAt.trim_onLine {t s : Text} {r : Range} (h : t.HoldsAt r s) (hn : '\n' ∉ s) :
    t.HoldsAt (.ofWidth ⟨r.start.line, r.start.character + s.leadingBlanks.length⟩ s.trim.length)
      s.trim := by
  have hcut := s.leading_trim_trailing
  have hlead : '\n' ∉ s.leadingBlanks := fun hm => hn (by rw [← hcut]; simp [hm])
  have htrim : '\n' ∉ s.leadingBlanks ++ s.trim := fun hm =>
    hn (by rw [← hcut]; exact List.mem_append_left _ hm)
  have := h.trim
  rw [Position.walk_eq_of_not_mem hlead, Position.walk_eq_of_not_mem htrim, List.length_append,
    ← Nat.add_assoc] at this
  exact this

/-- What follows the bytes of the front of a text is the rest of it. -/
theorem Text.afterBytes?_append (s t : Text) : Text.afterBytes? s.utf8Size (s ++ t) = some t := by
  induction s with
  | nil => cases t <;> rfl
  | cons c s ih =>
    have hpos : c.utf8Size + Text.utf8Size s ≠ 0 := by
      have := c.utf8Size_pos
      omega
    rw [Text.utf8Size_cons, List.cons_append, Text.afterBytes?]
    · rw [if_pos (Nat.le_add_right _ _), Nat.add_sub_cancel_left, ih]
    · exact hpos

namespace Template

/-- The text without the blanks around it, where it stands if the untrimmed text
begins at `origin`. -/
def trimmed? (raw : Text) (origin : Position) : Option Template :=
  if raw.trim = [] then none
  else some (.ofChunk ⟨raw.trim, ⟨origin.walk raw.leadingBlanks,
    origin.walk (raw.leadingBlanks ++ raw.trim)⟩, .producerValue⟩)

theorem ofRaw?_eq (raw : Text) (origin : Position) :
    ofRaw? raw origin = .ok (trimmed? raw origin) := by
  unfold ofRaw? trimmed?
  by_cases hblank : raw.trim = []
  · simp [hblank]
  · have hcut : raw = raw.leadingBlanks ++ (raw.trim ++ raw.trailingBlanks) := by
      rw [← List.append_assoc, raw.leading_trim_trailing]
    have hfirst := Cursor.seek_eq raw.seam_leadingBlanks (c := .start raw origin) hcut
    -- the second walk begins where the first one ended
    have hlast := Cursor.seek_eq (.of_append_left raw.seam_trailingBlanks)
      (c := ⟨raw.trim ++ raw.trailingBlanks, raw.leadingBlanks.utf8Size,
        origin.walk raw.leadingBlanks⟩) rfl
    simp only [Cursor.start, Nat.zero_add] at hfirst
    have hrange : Range.between (origin.walk raw.leadingBlanks)
        ((origin.walk raw.leadingBlanks).walk raw.trim) =
          .ok ⟨_, (origin.walk raw.leadingBlanks).walk raw.trim⟩ :=
      if_pos (Position.le_walk _ _)
    simp only [List.isEmpty_iff, hblank, if_false, Text.utf8Size_sub_trimStart, Cursor.start,
      hfirst, hlast, bind, Except.bind, hrange, pure, Except.pure, Position.walk_append]

theorem eq_of_trimmed? {raw : Text} {origin : Position} {value : Template}
    (h : trimmed? raw origin = some value) : raw.trim ≠ [] ∧
      value = .ofChunk ⟨raw.trim, ⟨origin.walk raw.leadingBlanks,
        origin.walk (raw.leadingBlanks ++ raw.trim)⟩, .producerValue⟩ := by
  unfold trimmed? at h
  split at h
  · contradiction
  · next hblank => exact ⟨hblank, (Option.some.inj h).symm⟩

end Template

/-- The lines that are neither blank nor a comment. -/
def Line.carrying (ls : List Line) : List Line :=
  ls.filter fun l => !l.isIgnored

theorem Line.mem_carrying {l : Line} {ls : List Line} :
    l ∈ carrying ls ↔ l ∈ ls ∧ l.isIgnored = false := by
  simp [carrying]

theorem Line.carrying_cons_of_ignored {l : Line} (h : l.isIgnored = true) (ls : List Line) :
    carrying (l :: ls) = carrying ls := by
  simp [carrying, h]

theorem Line.carrying_cons_of_not_ignored {l : Line} (h : ¬ l.isIgnored = true) (ls : List Line) :
    carrying (l :: ls) = l :: carrying ls := by
  simp [carrying, h]

namespace ProducerBlock

variable (source : List RawLine) (catalog : Catalog) (stop : Position)

/-- The value that begins on a line. -/
def valueFrom? (l : Line) : Option Template :=
  Template.trimmed? (RawLine.textBetween source ⟨l.number, 0⟩ stop) ⟨l.number, 0⟩

/-- The known properties that a body begins with. -/
def propertyLines (ls : List Line) : List Line :=
  (Line.carrying ls).takeWhile (isProperty catalog)

/-- The line on which the value begins. -/
def valueLine? (ls : List Line) : Option Line :=
  (Line.carrying ls).find? fun l => !isProperty catalog l

/-- A body is its properties and, from the first line that is none, its value. -/
theorem readBody_eq {ls : List Line} (h : ∀ l ∈ ls, (⟨l.number, 0⟩ : Position) ≤ stop) :
    readBody source catalog stop ls =
      .ok ((propertyLines catalog ls).map fun l => Property.parse l.content l.number,
        (valueLine? catalog ls).bind (valueFrom? source stop)) := by
  induction ls with
  | nil => rfl
  | cons l ls ih =>
    have ih := ih fun m hm => h m (List.mem_cons_of_mem l hm)
    unfold propertyLines valueLine? at ih ⊢
    rw [readBody]
    by_cases hignored : l.isIgnored = true
    · rw [if_pos hignored, Line.carrying_cons_of_ignored hignored, ih]
    · rw [if_neg hignored, Line.carrying_cons_of_not_ignored hignored]
      by_cases hknown : isProperty catalog l = true
      · rw [if_pos hknown, ih, List.takeWhile_cons_of_pos hknown, List.find?_cons_of_neg (by simp [hknown])]
        rfl
      · have hrange : Range.between ⟨l.number, 0⟩ stop = .ok ⟨⟨l.number, 0⟩, stop⟩ :=
          if_pos (h l List.mem_cons_self)
        rw [if_neg hknown, List.takeWhile_cons_of_neg hknown, List.find?_cons_of_pos (by simp [hknown])]
        simp only [hrange, Template.ofRaw?_eq, bind, Except.bind, pure, Except.pure, List.map_nil]
        rfl

/-- Reading a producer block from its lines. -/
theorem read_eq {opening : Line} {ls : List Line} {range : Range}
    (h : ∀ l ∈ ls, (⟨l.number, 0⟩ : Position) ≤ range.stop) :
    read source catalog (opening :: ls) range =
      .ok ⟨range, (propertyLines catalog ls).map fun l => Property.parse l.content l.number,
        (valueLine? catalog ls).bind (valueFrom? source range.stop)⟩ := by
  rw [read, List.drop_one, List.tail_cons, readBody_eq source catalog range.stop h]
  rfl

end ProducerBlock

namespace ConsumerBlock

/-- Reading a consumer block from its lines. -/
theorem read_eq (opening : Line) (ls : List Line) (range : Range) :
    read (opening :: ls) range = ⟨range, groupIdOf opening,
      (Line.carrying ls).map fun l => Property.parse l.content l.number⟩ := rfl

/-- What stands behind the keyword of an opening line. -/
def afterKeyword (l : Line) : Text :=
  l.content.drop BlockKind.consumer.keyword.length

theorem content_of_opener {l : Line} (h : l.opener? = some .consumer) :
    l.content = BlockKind.consumer.keyword ++ afterKeyword l := by
  have hprefix : BlockKind.consumer.keyword.isPrefixOf l.content = true := by
    unfold Line.opener? BlockKind.openedBy? at h
    split at h
    · simp at h
    · split at h
      · assumption
      · simp at h
  exact (List.prefix_iff_eq_append.mp (List.isPrefixOf_iff_prefix.mp hprefix)).symm

/-- The group is named by what stands behind the keyword. -/
theorem groupIdOf_eq {l : Line} (h : l.opener? = some .consumer) :
    groupIdOf l = ⟨(afterKeyword l).trim, .ofWidth ⟨l.number,
      BlockKind.consumer.keyword.length + (afterKeyword l).leadingBlanks.length⟩
        (afterKeyword l).trim.length, .consumerGroupId⟩ := by
  have hrest : Text.afterBytes? BlockKind.consumer.keyword.utf8Size l.content =
      some (afterKeyword l) := by
    conv_lhs => rw [content_of_opener h]
    exact Text.afterBytes?_append _ _
  rw [groupIdOf]
  simp only [hrest, Option.getD_some]

end ConsumerBlock

end KafkaScript
