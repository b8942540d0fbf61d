import KafkaScript.Proofs.Text.Addressing
import KafkaScript.Proofs.Text.Cursor

/-!
# Cursors and documents agree

A document finds its lines once, by cutting its text after every line feed; a
cursor finds them again while it walks. Both follow the same walk. What a cursor
has passed is a front of its text that may be cut off (`Passed`), every call
passes a piece more (`Passed.advance`), and a piece of a text that stands at a
range puts its end where the walk over it ends (`Text.HoldsAt.isPosition_stop`).
So after any calls (`Reaches`) a cursor over a part of a document stands at a
position of the document (`Reaches.agrees`).
-/

namespace KafkaScript

open Text (Seam)

/-- A walk goes no further than there are characters. -/
theorem Position.line_add_character_walk_le (p : Position) (t : Text) :
    (p.walk t).line + (p.walk t).character ≤ p.line + p.character + t.length := by
  induction t generalizing p with
  | nil => simp
  | cons c t ih =>
    have hnext : (p.next c).line + (p.next c).character ≤ p.line + p.character + 1 := by
      unfold next
      split
      · simp
      · simp only
        omega
    have htail := ih (p.next c)
    rw [walk_cons, List.length_cons]
    omega

theorem Text.length_le_utf8Size (t : Text) : t.length ≤ t.utf8Size := by
  induction t with
  | nil => simp
  | cons c t ih =>
    have hpos := c.utf8Size_pos
    simp only [List.length_cons, utf8Size_cons]
    omega

namespace Text.HoldsAt

variable {d : Document} {r : Range} {s : Text}

/-- A piece ends at a position. -/
theorem isPosition_stop (h : d.text.HoldsAt r s) : d.IsPosition r.stop := by
  obtain ⟨a, b, ht, -, hr, rfl⟩ := h
  exact (Document.isPosition_walk ht hr).1

/-- The offset of its end is past that of its start by the size of the piece. -/
theorem offsetAt_stop (h : d.text.HoldsAt r s) :
    d.offsetAt r.stop = d.offsetAt r.start + s.utf8Size := by
  obtain ⟨a, b, -, hstart, hstop⟩ := Document.isSlice_of_holdsAt h
  rw [← hstart, ← hstop, utf8Size_append]

end Text.HoldsAt

namespace Document

/-- The coordinates of a position are no larger than the text. -/
theorem IsPosition.addressable {d : Document} {p : Position} (h : d.IsPosition p)
    (hsize : d.text.utf8Size ≤ maxUInt64) : p.Addressable := by
  obtain ⟨b, hb, -, hwalk⟩ := h.exists_seam d.split_rawLines
  have hle := Position.line_add_character_walk_le .zero (RawLine.textBefore d.rawLines p)
  rw [hwalk] at hle
  have htext := Text.length_le_utf8Size d.text
  have hlen : d.text.length = (RawLine.textBefore d.rawLines p).length + b.length := by
    rw [← d.join_rawLines, hb, List.length_append]
  simp only [Position.zero] at hle
  constructor <;> omega

end Document

namespace Cursor

/-- Where calls can bring a cursor. -/
inductive Reaches (c : Cursor) : Cursor → Prop where
  | refl : Reaches c c
  | advance {d : Cursor} : Reaches c d → Reaches c d.advance
  | advanceN {d : Cursor} (n : Nat) : Reaches c d → Reaches c (advanceN n d)

/-- A cursor that was at the start of the text `t` has passed its front `a`. -/
structure Passed (t : Text) (origin : Position) (a : Text) (c : Cursor) : Prop where
  text : t = a ++ c.rest
  seam : Seam a c.rest
  index : c.index = a.utf8Size
  pos : c.pos = origin.walk a

variable {t a : Text} {origin : Position} {c : Cursor}

theorem Passed.start (t : Text) (origin : Position) : Passed t origin [] (.start t origin) :=
  ⟨rfl, Text.seam_nil_left t, rfl, rfl⟩

theorem Passed.advance (h : Passed t origin a c) : ∃ a', Passed t origin a' c.advance := by
  by_cases hrest : c.rest = []
  · rw [advance_of_rest_nil hrest]
    exact ⟨a, h⟩
  · obtain ⟨s, hs, hseam, -, hne, hindex, hpos⟩ := advance_spec hrest
    -- only the last character passed decides whether the text may be cut here
    refine ⟨a ++ s, ?_, ?_, ?_, ?_⟩
    · rw [h.text, List.append_assoc, ← hs]
    · exact (Text.seam_append_left hne).mpr hseam
    · rw [hindex, h.index, Text.utf8Size_append]
    · rw [hpos, h.pos, Position.walk_append]

theorem Passed.advanceN (n : Nat) (h : Passed t origin a c) :
    ∃ a', Passed t origin a' (advanceN n c) := by
  induction n generalizing a c with
  | zero => exact ⟨a, h⟩
  | succ n ih =>
    rw [Cursor.advanceN]
    split
    · exact ⟨a, h⟩
    · obtain ⟨a', h'⟩ := h.advance
      exact ih h'

theorem Reaches.exists_passed (h : (start t origin).Reaches c) : ∃ a, Passed t origin a c := by
  induction h with
  | refl => exact ⟨[], .start t origin⟩
  | advance _ ih =>
    obtain ⟨a, ha⟩ := ih
    exact ha.advance
  | advanceN n _ ih =>
    obtain ⟨a, ha⟩ := ih
    exact ha.advanceN n

theorem pos_lt_pos_advance (h : c.rest ≠ []) : c.pos < c.advance.pos := by
  obtain ⟨s, -, -, -, hne, -, hpos⟩ := advance_spec h
  rw [hpos]
  exact Position.lt_walk hne c.pos

theorem advance?_eq (h : c.advance.pos.Addressable) : c.advance? = .ok c.advance := by
  rw [advance?, Position.check, if_pos h]
  rfl

theorem Reaches.trans {d e : Cursor} (h : c.Reaches d) (h' : d.Reaches e) : c.Reaches e := by
  induction h' with
  | refl => exact h
  | advance _ ih => exact ih.advance
  | advanceN n _ ih => exact ih.advanceN n

/-- Many steps are not refused if none on the way is. -/
theorem advanceN?_eq (h : ∀ d, c.Reaches d → d.advance? = .ok d.advance) (n : Nat) :
    advanceN? n c = .ok (Cursor.advanceN n c) := by
  induction n generalizing c with
  | zero => rfl
  | succ n ih =>
    rw [advanceN?, Cursor.advanceN, h c .refl]
    split
    · rfl
    · exact ih fun d hd => h d (Reaches.refl.advance.trans hd)

/-- A cursor over a range of a document stands where the document says that it
does. -/
structure Agrees (c : Cursor) (d : Document) (r : Range) : Prop where
  /-- The index lies between two characters of the text of the range. -/
  boundary : ∃ a, d.getText r = a ++ c.rest ∧ c.index = a.utf8Size
  isPosition : d.IsPosition c.pos
  offset : d.offsetAt c.pos = d.offsetAt r.start + c.index
  /-- A step that has a character to answer with goes forward. -/
  forward : c.peek.isSome → c.pos < c.advance.pos
  /-- In a text whose offsets fit in 64 bits no call is refused. -/
  accepted : d.text.utf8Size ≤ maxUInt64 →
    c.advance? = .ok c.advance ∧ ∀ n, advanceN? n c = .ok (Cursor.advanceN n c)

variable {d : Document} {p q : Position}

/-- What a cursor over a range has passed stands at the start of the range. -/
theorem Passed.holdsAt (hp : d.IsPosition p) (hq : d.IsPosition q) (hle : p ≤ q)
    (h : Passed (d.getText ⟨p, q⟩) p a c) : d.text.HoldsAt ⟨p, c.pos⟩ a := by
  have hrange : d.text.HoldsAt ⟨p, q⟩ (d.getText ⟨p, q⟩) := Text.holdsAt_textBetween hp hq hle
  have hfront := hrange.part (x := []) h.text (Text.seam_nil_left _) h.seam
  rw [List.nil_append, Position.walk_nil, ← h.pos] at hfront
  exact hfront

/-- After any calls a cursor over a range between two positions agrees with the
document, wherever the range begins and wherever it is cut off. -/
theorem Reaches.agrees (hp : d.IsPosition p) (hq : d.IsPosition q) (hle : p ≤ q)
    (h : (start (d.getText ⟨p, q⟩) p).Reaches c) : c.Agrees d ⟨p, q⟩ := by
  have hisPosition : ∀ e, (start (d.getText ⟨p, q⟩) p).Reaches e → d.IsPosition e.pos := by
    intro e he
    obtain ⟨a, ha⟩ := he.exists_passed
    exact (ha.holdsAt hp hq hle).isPosition_stop
  obtain ⟨a, ha⟩ := h.exists_passed
  refine ⟨⟨a, ha.text, ha.index⟩, hisPosition c h, ?_, ?_, ?_⟩
  · rw [ha.index]
    exact (ha.holdsAt hp hq hle).offsetAt_stop
  · intro hpeek
    refine pos_lt_pos_advance fun hrest => ?_
    simp [peek, hrest] at hpeek
  · intro hsize
    -- a call from here leads to a position, and those are within 64 bits
    have haccepted : ∀ e, c.Reaches e → e.advance? = .ok e.advance := fun e he =>
      advance?_eq ((hisPosition _ (h.trans he).advance).addressable hsize)
    exact ⟨haccepted c .refl, advanceN?_eq haccepted⟩

/-- Cut off right after a carriage return that has another one and a line feed
behind it. -/
theorem Reaches.agrees_carriageReturn :
    let d : Document := ⟨[], 1, Document.kafkaLanguage, ['x', '\r', '\r', '\n', 'y']⟩
    d.IsPosition ⟨0, 1⟩ ∧ d.IsPosition ⟨0, 2⟩ ∧
      (start (d.getText ⟨⟨0, 1⟩, ⟨0, 2⟩⟩) ⟨0, 1⟩).Reaches ⟨[], 1, ⟨0, 2⟩⟩ ∧
      Agrees ⟨[], 1, ⟨0, 2⟩⟩ d ⟨⟨0, 1⟩, ⟨0, 2⟩⟩ := by
  intro d
  have hp : d.IsPosition ⟨0, 1⟩ := ⟨⟨['x', '\r'], .carriageReturnLineFeed⟩, rfl, by decide⟩
  have hq : d.IsPosition ⟨0, 2⟩ := ⟨⟨['x', '\r'], .carriageReturnLineFeed⟩, rfl, by decide⟩
  have h : (start (d.getText ⟨⟨0, 1⟩, ⟨0, 2⟩⟩) ⟨0, 1⟩).Reaches ⟨[], 1, ⟨0, 2⟩⟩ :=
    Reaches.refl.advance
  exact ⟨hp, hq, h, h.agrees hp hq (by decide)⟩

end Cursor

end KafkaScript
