import KafkaScript.Proofs.Text.Lines

/-!
# Where a piece of text stands

A position of a document is a place where a walk from the start of its text may
stop. It stands for the text before it: the walk over that text ends at the
position (`IsPosition.exists_seam`), and the text before the end of a walk is
the text walked over (`textBefore_walk`).

`Text.HoldsAt` says that a range is where a piece of text stands. It passes from
a piece to the pieces of that one (`HoldsAt.part`), and what a document answers
for a range follows from it (`Document.getText_of_holdsAt`,
`Document.isSlice_of_holdsAt`).
-/

namespace KafkaScript

open Text (Seam)

namespace RawLine

/-- A character of a line, or the end of the line's content. -/
def IsPosition (ls : List RawLine) (p : Position) : Prop :=
  ∃ l, ls[p.line]? = some l ∧ p.character ≤ l.content.length

/-- The start of the text, or a position within the lines after the first. -/
theorem IsPosition.cases_cons {l : RawLine} {ls : List RawLine} {p : Position}
    (h : IsPosition (l :: ls) p) :
    (∃ character, p = ⟨0, character⟩ ∧ character ≤ l.content.length) ∨
      ∃ q, p = q.down 1 ∧ IsPosition ls q := by
  obtain ⟨m, hm, hc⟩ := h
  rcases p with ⟨_ | line, character⟩
  · obtain rfl : l = m := by simpa using hm
    exact .inl ⟨character, rfl, hc⟩
  · exact .inr ⟨⟨line, character⟩, rfl, m, by simpa using hm, hc⟩

/-! ## The text before a position -/

@[simp] theorem textBefore_down (l : RawLine) (ls : List RawLine) (p : Position) :
    textBefore (l :: ls) (p.down 1) = l.text ++ textBefore ls p := rfl

/-- A walk over a whole line ends at the start of the next one. -/
theorem walk_text {l : RawLine} (hn : '\n' ∉ l.content) (he : l.ending ≠ .none) (p : Position) :
    p.walk l.text = ⟨p.line + 1, 0⟩ := by
  rcases l with ⟨content, _ | _ | _⟩
  · exact absurd rfl he
  · exact Position.walk_append_lineFeed hn p
  · have hn' : '\n' ∉ content ++ ['\r'] := by simpa using hn
    simpa [text, Ending.text] using Position.walk_append_lineFeed hn' p

theorem getLast?_text {l : RawLine} (he : l.ending ≠ .none) : l.text.getLast? = some '\n' := by
  rcases l with ⟨content, _ | _ | _⟩
  · exact absurd rfl he
  · simp [text, Ending.text]
  · simp [text, Ending.text]

theorem walk_text_append {l : RawLine} (hn : '\n' ∉ l.content) (he : l.ending ≠ .none) (t : Text) :
    Position.zero.walk (l.text ++ t) = (Position.zero.walk t).down 1 := by
  rw [Position.walk_append, walk_text hn he, ← Position.walk_down]
  rfl

/-- Within the first line. -/
private theorem textBefore_walk_first {l : RawLine} {a : Text} (hn : '\n' ∉ l.content)
    (h : a <+: l.content) (ls : List RawLine) :
    textBefore (l :: ls) (Position.zero.walk a) = a := by
  rw [Position.walk_eq_of_not_mem fun hm => hn (h.subset hm)]
  simpa [textBefore, Position.zero] using (List.prefix_iff_eq_take.mp h).symm

/-- Past the first line. -/
private theorem textBefore_walk_past {l : RawLine} {ls : List RawLine} {a : Text}
    (hn : '\n' ∉ l.content) (he : l.ending ≠ .none)
    (h : textBefore ls (Position.zero.walk a) = a) :
    textBefore (l :: ls) (Position.zero.walk (l.text ++ a)) = l.text ++ a := by
  rw [walk_text_append hn he, textBefore_down, h]

/-- What a walk from the start of a text passes is the text before the position
at which it ends. -/
theorem textBefore_walk {ls : List RawLine} (h : Split ls) {a b : Text} (hab : join ls = a ++ b)
    (hs : Seam a b) : textBefore ls (Position.zero.walk a) = a := by
  induction h generalizing a with
  | last hn =>
    have hc := hab
    simp only [join_cons, join_nil, text, Ending.text, List.append_nil] at hc
    exact textBefore_walk_first hn ⟨b, hc.symm⟩ []
  | @lineFeed content ls hn _ _ ih =>
    have hc : content ++ '\n' :: join ls = a ++ b := by simpa [text, Ending.text] using hab
    rcases List.append_eq_append_iff.mp hc with ⟨u, rfl, hu⟩ | ⟨u, rfl, -⟩
    · rcases u with _ | ⟨c, u⟩
      · exact textBefore_walk_first hn (by simp) ls
      · obtain ⟨rfl, hub⟩ : '\n' = c ∧ join ls = u ++ b := by simpa using hu
        have hsu : Seam u b := Seam.of_append_left (s := content ++ ['\n']) (by simpa using hs)
        simpa [text, Ending.text] using
          textBefore_walk_past (l := ⟨content, .lineFeed⟩) hn (by simp) (ih hub hsu)
    · exact textBefore_walk_first hn (List.prefix_append a u) ls
  | @carriageReturnLineFeed content ls hn _ ih =>
    have hc : content ++ '\r' :: '\n' :: join ls = a ++ b := by simpa [text, Ending.text] using hab
    rcases List.append_eq_append_iff.mp hc with ⟨u, rfl, hu⟩ | ⟨u, rfl, -⟩
    · rcases u with _ | ⟨c, _ | ⟨d, u⟩⟩
      · exact textBefore_walk_first hn (by simp) ls
      · -- the cut would go through the line ending
        obtain ⟨rfl, rfl⟩ : '\r' = c ∧ '\n' :: join ls = b := by simpa using hu
        exact absurd rfl (hs (by simp))
      · obtain ⟨rfl, rfl, hub⟩ : '\r' = c ∧ '\n' = d ∧ join ls = u ++ b := by simpa using hu
        have hsu : Seam u b := Seam.of_append_left (s := content ++ ['\r', '\n']) (by simpa using hs)
        simpa [text, Ending.text] using
          textBefore_walk_past (l := ⟨content, .carriageReturnLineFeed⟩) hn (by simp) (ih hub hsu)
    · exact textBefore_walk_first hn (List.prefix_append a u) ls

/-- A line may be cut anywhere within its content. -/
private theorem seam_content {l : RawLine} {ls : List RawLine} (h : Split (l :: ls)) {a b : Text}
    (hab : l.content = a ++ b) : Seam a (b ++ l.ending.text ++ join ls) := by
  have hn : '\n' ∉ l.content := h.not_mem l List.mem_cons_self
  rcases b with _ | ⟨c, b⟩
  · rw [List.append_nil] at hab
    subst hab
    cases h with
    | last _ => exact Seam.of_head (by simp [Ending.text]) _
    | lineFeed _ hr _ => exact Seam.of_getLast hr _
    | carriageReturnLineFeed _ _ => exact Seam.of_head (by simp [Ending.text]) _
  · refine Seam.of_head ?_ a
    simp only [List.cons_append, List.head?_cons, ne_eq, Option.some.injEq]
    rintro rfl
    exact hn (by simp [hab])

/-- A position is where the walk over the text before it ends, and the text may
be cut there. -/
theorem IsPosition.exists_seam {ls : List RawLine} (h : Split ls) {p : Position}
    (hp : IsPosition ls p) : ∃ b, join ls = textBefore ls p ++ b ∧ Seam (textBefore ls p) b ∧
      Position.zero.walk (textBefore ls p) = p := by
  induction ls generalizing p with
  | nil => exact absurd rfl h.ne_nil
  | cons l ls ih =>
    have hn : '\n' ∉ l.content := h.not_mem l List.mem_cons_self
    rcases hp.cases_cons with ⟨character, rfl, hc⟩ | ⟨q, rfl, hq⟩
    · have hcut := (List.take_append_drop character l.content).symm
      refine ⟨l.content.drop character ++ l.ending.text ++ join ls, ?_, seam_content h hcut, ?_⟩
      · rw [textBefore, join_cons, text, ← List.append_assoc, ← List.append_assoc, ← hcut]
      · have hm : '\n' ∉ l.content.take character := fun hm => hn (List.mem_of_mem_take hm)
        rw [textBefore, Position.walk_eq_of_not_mem hm, List.length_take, Nat.min_eq_left hc]
        simp [Position.zero]
    · obtain ⟨hls, he⟩ : Split ls ∧ l.ending ≠ .none := by
        cases h with
        | last _ => obtain ⟨m, hm, -⟩ := hq; simp at hm
        | lineFeed _ _ hls => exact ⟨hls, by simp⟩
        | carriageReturnLineFeed _ hls => exact ⟨hls, by simp⟩
      obtain ⟨b, hb, hs, hw⟩ := ih hls hq
      refine ⟨b, by simp [hb], ?_, by rw [textBefore_down, walk_text_append hn he, hw]⟩
      rw [textBefore_down]
      exact hs.append_left (getLast?_text he)

/-! ## The text between two positions -/

/-- Between two positions in order stands what the later one has before it and
the earlier one has not. -/
theorem textBefore_append_textBetween (ls : List RawLine) {p q : Position} (h : p ≤ q) :
    textBefore ls p ++ textBetween ls p q = textBefore ls q := by
  induction ls generalizing p q with
  | nil => simp [textBefore, textBetween]
  | cons l ls ih =>
    rw [Position.le_iff] at h
    rcases p with ⟨_ | line, first⟩ <;> rcases q with ⟨_ | line', last⟩
    · have hle : first ≤ last := by simpa using h
      simp only [textBefore, textBetween]
      rw [← Nat.min_eq_left hle, ← List.take_take, Nat.min_eq_left hle, List.take_append_drop]
    · simp only [textBefore, textBetween, text]
      rw [← List.append_assoc, ← List.append_assoc, List.take_append_drop]
    · simp at h
    · simp only [textBefore, textBetween, List.append_assoc]
      rw [ih (by rw [Position.le_iff]; simp only [Nat.add_right_cancel_iff] at h ⊢; omega)]

/-- Between two positions on one line stand the characters of its content. -/
theorem textBetween_of_line {ls : List RawLine} {n : Nat} {l : RawLine} (h : ls[n]? = some l)
    (start stop : Nat) :
    textBetween ls ⟨n, start⟩ ⟨n, stop⟩ = (l.content.take stop).drop start := by
  induction ls generalizing n with
  | nil => simp at h
  | cons m ls ih =>
    cases n with
    | zero =>
      obtain rfl : m = l := by simpa using h
      rfl
    | succ n => exact ih (by simpa using h)

/-- An inverted range holds nothing. -/
theorem textBetween_eq_nil (ls : List RawLine) {p q : Position} (h : q ≤ p) :
    textBetween ls p q = [] := by
  induction ls generalizing p q with
  | nil => rfl
  | cons l ls ih =>
    rw [Position.le_iff] at h
    rcases p with ⟨_ | line, first⟩ <;> rcases q with ⟨_ | line', last⟩
    · have hle : last ≤ first := by simpa using h
      simp only [textBetween]
      exact List.drop_of_length_le (by simp; omega)
    · simp at h
    · rfl
    · exact ih (by rw [Position.le_iff]; simp only [Nat.add_right_cancel_iff] at h ⊢; omega)

/-- The offset of a position counts the bytes before it. -/
theorem utf8Size_textBefore (ls : List RawLine) (p : Position) :
    Text.utf8Size (textBefore ls p) = offsetIn ls p.line p.character := by
  induction ls generalizing p with
  | nil => rfl
  | cons l ls ih =>
    rcases p with ⟨_ | line, character⟩
    · rfl
    · rw [textBefore, Text.utf8Size_append, ih, offsetIn]

/-- The text before a position, wherever it is taken to, is the front of the
whole text. -/
theorem textBefore_prefix (ls : List RawLine) (p : Position) : textBefore ls p <+: join ls := by
  induction ls generalizing p with
  | nil => exact List.nil_prefix
  | cons l ls ih =>
    rcases p with ⟨_ | line, character⟩
    · exact (List.take_prefix character l.content).trans
        ((List.prefix_append l.content _).trans (List.prefix_append l.text _))
    · exact (List.prefix_append_right_inj l.text).mpr (ih ⟨line, character⟩)

end RawLine

/-! ## Pieces of a text -/

namespace Text

/-- The bytes of a text from one offset up to another are those of a piece: the
offsets are in order, within the text, and between characters. -/
def IsSlice (t : Text) (start stop : Nat) (s : Text) : Prop :=
  ∃ a b, t = a ++ s ++ b ∧ utf8Size a = start ∧ utf8Size (a ++ s) = stop

/-- A piece of a text stands at a range: the range runs from the end of a walk
over what is before the piece to the end of a walk over the piece, and the text
may be cut at both. -/
def HoldsAt (t : Text) (r : Range) (s : Text) : Prop :=
  ∃ a b, t = a ++ s ++ b ∧ Seam a (s ++ b) ∧ Seam (a ++ s) b ∧
    r = ⟨Position.zero.walk a, Position.zero.walk (a ++ s)⟩

namespace HoldsAt

variable {t s : Text} {r : Range}

/-- A walk over the piece from the start of its range ends at the stop. -/
theorem stop_eq (h : t.HoldsAt r s) : r.stop = r.start.walk s := by
  obtain ⟨a, b, -, -, -, rfl⟩ := h
  exact Position.walk_append _ a s

theorem start_le_stop (h : t.HoldsAt r s) : r.start ≤ r.stop := by
  rw [h.stop_eq]
  exact Position.le_walk _ s

/-- A piece of a piece stands where a walk over the outer one finds it. -/
theorem part (h : t.HoldsAt r s) {x y z : Text} (hcut : s = x ++ y ++ z) (hx : Seam x (y ++ z))
    (hy : Seam (x ++ y) z) : t.HoldsAt ⟨r.start.walk x, r.start.walk (x ++ y)⟩ y := by
  subst hcut
  obtain ⟨a, b, rfl, hl, hr, rfl⟩ := h
  refine ⟨a ++ x, z ++ b, by simp, ?_, ?_, ?_⟩
  · have := hx.extend (a := a) (b := b) (by simpa using hl) (by simpa using hr)
    simpa using this
  · have := hy.extend (a := a) (b := b) hl hr
    simpa using this
  · simp [Position.walk_append]

/-- Before the range stands what comes before the piece. -/
theorem exists_textBefore (h : t.HoldsAt r s) : ∃ a,
    RawLine.textBefore (RawLine.ofText t) r.start = a ∧
      RawLine.textBefore (RawLine.ofText t) r.stop = a ++ s ∧ r.start = Position.zero.walk a := by
  obtain ⟨a, b, ht, hl, hr, rfl⟩ := h
  have hls := RawLine.split_ofText t
  have hj : RawLine.join (RawLine.ofText t) = a ++ (s ++ b) := by
    rw [RawLine.join_ofText, ht, List.append_assoc]
  exact ⟨a, RawLine.textBefore_walk hls hj hl,
    RawLine.textBefore_walk hls (hj.trans (List.append_assoc a s b).symm) hr, rfl⟩

/-- The lines of the text answer with the piece when they are asked for the
range. -/
theorem textBetween (h : t.HoldsAt r s) :
    RawLine.textBetween (RawLine.ofText t) r.start r.stop = s := by
  have hbetween := RawLine.textBefore_append_textBetween (RawLine.ofText t) h.start_le_stop
  obtain ⟨a, hstart, hstop, -⟩ := h.exists_textBefore
  rw [hstart, hstop] at hbetween
  exact List.append_cancel_left hbetween

/-- A range within another one holds a piece of what that one holds. -/
theorem exists_append (h : t.HoldsAt r s) {r' : Range} {s' : Text} (h' : t.HoldsAt r' s')
    (hstart : r.start ≤ r'.start) (hstop : r'.stop ≤ r.stop) :
    ∃ x y, s = x ++ s' ++ y ∧ r'.start = r.start.walk x := by
  have hx := RawLine.textBefore_append_textBetween (RawLine.ofText t) hstart
  have hy := RawLine.textBefore_append_textBetween (RawLine.ofText t) hstop
  obtain ⟨a, ha, has, hwa⟩ := h.exists_textBefore
  obtain ⟨a', ha', has', hwa'⟩ := h'.exists_textBefore
  rw [ha, ha'] at hx
  rw [has, has', ← hx, List.append_assoc, List.append_assoc, ← List.append_assoc _ s'] at hy
  have hwalk : r'.start = r.start.walk (RawLine.textBetween _ r.start r'.start) :=
    hwa'.trans (hx ▸ hwa ▸ Position.walk_append _ _ _)
  exact ⟨_, _, (List.append_cancel_left hy).symm, hwalk⟩

/-- A piece that ends where another one ends, and begins no earlier, is the end of
that one. -/
theorem exists_append_right (h : t.HoldsAt r s) {r' : Range} {s' : Text} (h' : t.HoldsAt r' s')
    (hstart : r.start ≤ r'.start) (hstop : r'.stop = r.stop) :
    ∃ x, s = x ++ s' ∧ r'.start = r.start.walk x := by
  have hx := RawLine.textBefore_append_textBetween (RawLine.ofText t) hstart
  obtain ⟨a, ha, has, hwa⟩ := h.exists_textBefore
  obtain ⟨a', ha', has', hwa'⟩ := h'.exists_textBefore
  rw [ha, ha'] at hx
  rw [hstop, has, ← hx, List.append_assoc] at has'
  have hwalk : r'.start = r.start.walk (RawLine.textBetween _ r.start r'.start) :=
    hwa'.trans (hx ▸ hwa ▸ Position.walk_append _ _ _)
  exact ⟨_, List.append_cancel_left has', hwalk⟩

end HoldsAt

/-- Two positions in order are the range of the text between them. -/
theorem holdsAt_textBetween {t : Text} {p q : Position} (hp : RawLine.IsPosition (RawLine.ofText t) p)
    (hq : RawLine.IsPosition (RawLine.ofText t) q) (h : p ≤ q) :
    t.HoldsAt ⟨p, q⟩ (RawLine.textBetween (RawLine.ofText t) p q) := by
  have hls := RawLine.split_ofText t
  obtain ⟨b, hb, hsb, hwb⟩ := hp.exists_seam hls
  obtain ⟨c, hc, hsc, hwc⟩ := hq.exists_seam hls
  have hpq := RawLine.textBefore_append_textBetween (RawLine.ofText t) h
  rw [← hpq] at hc hsc hwc
  have hbc : b = RawLine.textBetween (RawLine.ofText t) p q ++ c :=
    List.append_cancel_left (hb.symm.trans (hc.trans (List.append_assoc _ _ c)))
  exact ⟨_, c, by rw [← hc, RawLine.join_ofText], hbc ▸ hsb, hsc, by rw [hwb, hwc]⟩

/-- The characters of a line from one column up to another stand there. -/
theorem holdsAt_line {t : Text} {n : Nat} {l : RawLine} (hl : (RawLine.ofText t)[n]? = some l)
    {start stop : Nat} (h : start ≤ stop) (hstop : stop ≤ l.content.length) :
    t.HoldsAt ⟨⟨n, start⟩, ⟨n, stop⟩⟩ ((l.content.take stop).drop start) := by
  rw [← RawLine.textBetween_of_line hl]
  refine holdsAt_textBetween ⟨l, hl, Nat.le_trans h hstop⟩ ⟨l, hl, hstop⟩ ?_
  rw [Position.le_iff]
  exact .inr ⟨rfl, h⟩

end Text

namespace Document

theorem getText_of_holdsAt {d : Document} {r : Range} {s : Text} (h : d.text.HoldsAt r s) :
    d.getText r = s := h.textBetween

theorem utf8Size_textBefore (d : Document) (p : Position) :
    Text.utf8Size (RawLine.textBefore d.rawLines p) = d.offsetAt p :=
  RawLine.utf8Size_textBefore d.rawLines p

/-- An earlier position has no larger offset. -/
theorem offsetAt_mono (d : Document) {p q : Position} (h : p ≤ q) : d.offsetAt p ≤ d.offsetAt q := by
  rw [← utf8Size_textBefore, ← utf8Size_textBefore, ← RawLine.textBefore_append_textBetween _ h,
    Text.utf8Size_append]
  exact Nat.le_add_right _ _

/-- The text of any range is a slice of the document, from the offset of its
start to that of its stop or, if it is inverted, to the start again. -/
theorem isSlice_getText (d : Document) (r : Range) :
    d.text.IsSlice (d.offsetAt r.start) (max (d.offsetAt r.start) (d.offsetAt r.stop))
      (d.getText r) := by
  rcases le_total r.start r.stop with h | h
  · obtain ⟨b, hb⟩ := RawLine.textBefore_prefix d.rawLines r.stop
    have hpq := RawLine.textBefore_append_textBetween d.rawLines h
    rw [Nat.max_eq_right (d.offsetAt_mono h)]
    refine ⟨RawLine.textBefore d.rawLines r.start, b, ?_, d.utf8Size_textBefore r.start, ?_⟩
    · rw [getText, hpq, hb, rawLines, RawLine.join_ofText]
    · rw [getText, hpq, utf8Size_textBefore]
  · obtain ⟨b, hb⟩ := RawLine.textBefore_prefix d.rawLines r.start
    rw [Nat.max_eq_left (d.offsetAt_mono h), getText, RawLine.textBetween_eq_nil _ h]
    refine ⟨RawLine.textBefore d.rawLines r.start, b, ?_, d.utf8Size_textBefore r.start, ?_⟩
    · rw [List.append_nil, hb, rawLines, RawLine.join_ofText]
    · rw [List.append_nil, utf8Size_textBefore]

/-- A piece that stands at a range is the slice between the offsets of its ends. -/
theorem isSlice_of_holdsAt {d : Document} {r : Range} {s : Text} (h : d.text.HoldsAt r s) :
    d.text.IsSlice (d.offsetAt r.start) (d.offsetAt r.stop) s := by
  have := d.isSlice_getText r
  rwa [getText_of_holdsAt h, Nat.max_eq_right (d.offsetAt_mono h.start_le_stop)] at this

end Document

end KafkaScript
