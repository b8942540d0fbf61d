import KafkaScript.Proofs.Text.Location

/-!
# Positions address the text

The positions of a document and the places where its text may be cut are two
names for the same thing. A position stands for the text before it, so its offset
is the size of that text; a later position has more before it
(`offsetAt_lt`), and a cut is where the walk over the text before it ends
(`RawLine.isPosition_walk`).

Nothing here depends on how the lines are found. `Pieces` says what cutting a text
after every line feed gives, and whoever hands out such pieces hands out the lines
of the text (`RawLine.ofText_eq_ofPieces`).
-/

namespace KafkaScript

open Text (Seam)

namespace Position

/-- A walk goes down one line for each line feed. -/
theorem line_walk (p : Position) (t : Text) : (p.walk t).line = p.line + t.count '\n' := by
  induction t generalizing p with
  | nil => rfl
  | cons c t ih =>
    rw [walk_cons, ih]
    by_cases hc : c = '\n'
    · simp only [next, hc, if_true, List.count_cons_self]
      omega
    · simp only [next, hc, if_false, List.count_cons_of_ne hc]

theorem lt_walk {t : Text} (h : t ≠ []) (p : Position) : p < p.walk t := by
  cases t with
  | nil => exact absurd rfl h
  | cons c t => exact lt_of_lt_of_le (lt_next p c) (le_walk _ t)

end Position

namespace RawLine

/-! ## Cutting a text after every line feed -/

/-- The pieces of a text: none is empty, and each ends at its first line feed or,
if it is the last one, where the text ends. -/
inductive Pieces : Text → List Text → Prop where
  | none : Pieces [] []
  | last {piece : Text} : piece ≠ [] → '\n' ∉ piece → Pieces piece [piece]
  | cons {piece t : Text} {ps : List Text} : '\n' ∉ piece → Pieces t ps →
      Pieces (piece ++ '\n' :: t) ((piece ++ ['\n']) :: ps)

/-- Every text can be cut like that. -/
theorem exists_pieces (t : Text) : ∃ ps, Pieces t ps := by
  induction t with
  | nil => exact ⟨[], .none⟩
  | cons c t ih =>
    obtain ⟨ps, hps⟩ := ih
    by_cases hc : c = '\n'
    · subst hc
      exact ⟨_, @Pieces.cons [] _ _ List.not_mem_nil hps⟩
    · have hc' : '\n' ≠ c := fun heq => hc heq.symm
      cases hps with
      | none => exact ⟨_, .last (by simp) (by simp [hc'])⟩
      | last _ hn => exact ⟨_, .last (by simp) (by simp [hc', hn])⟩
      | @cons piece _ _ hn hps => exact ⟨_, @Pieces.cons (c :: piece) _ _ (by simp [hc', hn]) hps⟩

/-- A piece as a line: what ends it is taken off. -/
def ofPiece (piece : Text) : RawLine :=
  match piece.reverse with
  | '\n' :: '\r' :: rest => ⟨rest.reverse, .carriageReturnLineFeed⟩
  | '\n' :: rest => ⟨rest.reverse, .lineFeed⟩
  | _ => ⟨piece, .none⟩

/-- The lines for some pieces: one for each, and an empty one more if the last of
them has an ending, or if there is none. -/
def ofPieces (ps : List Text) : List RawLine :=
  ps.map ofPiece ++ if ps.getLast?.all (·.getLast? == some '\n') then [⟨[], .none⟩] else []

theorem ofPiece_of_not_mem {piece : Text} (h : '\n' ∉ piece) : ofPiece piece = ⟨piece, .none⟩ := by
  unfold ofPiece
  split
  · next heq => exact absurd (List.mem_reverse.mp (heq ▸ List.mem_cons_self)) h
  · next heq => exact absurd (List.mem_reverse.mp (heq ▸ List.mem_cons_self)) h
  · rfl

/-- A piece with a line feed at its end, which goes with a carriage return before
it. -/
theorem ofPiece_lineFeed (piece : Text) : ofPiece (piece ++ ['\n']) =
    if piece.getLast? = some '\r' then ⟨piece.dropLast, .carriageReturnLineFeed⟩
    else ⟨piece, .lineFeed⟩ := by
  rcases piece.eq_nil_or_concat with rfl | ⟨front, c, rfl⟩
  · rfl
  · by_cases hc : c = '\r'
    · simp [ofPiece, hc]
    · simp [ofPiece, hc]

/-- What stands before the first line feed is the first line. -/
theorem ofText_append_lineFeed {piece : Text} (hn : '\n' ∉ piece) (t : Text) :
    ofText (piece ++ '\n' :: t) = ofPiece (piece ++ ['\n']) :: ofText t := by
  rw [ofPiece_lineFeed]
  split
  · next hcr =>
    -- the carriage return goes with the line feed
    obtain ⟨front, rfl⟩ := List.getLast?_eq_some_iff.mp hcr
    have hn' : '\n' ∉ front := fun hm => hn (List.mem_append_left _ hm)
    have hsplit : Split (⟨front, .carriageReturnLineFeed⟩ :: ofText t) :=
      .carriageReturnLineFeed hn' (split_ofText t)
    rw [List.dropLast_concat, ← ofText_join hsplit]
    simp [text, Ending.text, join_ofText]
  · next hcr =>
    have hsplit : Split (⟨piece, .lineFeed⟩ :: ofText t) := .lineFeed hn hcr (split_ofText t)
    rw [← ofText_join hsplit]
    simp [text, Ending.text, join_ofText]

/-- The lines for the pieces of a text are those of the text. -/
theorem ofText_eq_ofPieces {t : Text} {ps : List Text} (h : Pieces t ps) :
    ofText t = ofPieces ps := by
  induction h with
  | none => rfl
  | @last piece hne hn =>
    have hsplit : Split [⟨piece, .none⟩] := .last hn
    have hlast : piece.getLast? ≠ some '\n' := fun heq => hn (List.mem_of_getLast? heq)
    have hjoin : join [⟨piece, .none⟩] = piece := by simp [text, Ending.text]
    rw [← hjoin, ofText_join hsplit, hjoin]
    simp [ofPieces, ofPiece_of_not_mem hn, hlast]
  | @cons piece t ps hn hps ih =>
    have hrest : ofPieces ((piece ++ ['\n']) :: ps) = ofPiece (piece ++ ['\n']) :: ofPieces ps := by
      cases ps with
      | nil => simp [ofPieces]
      | cons p ps => simp [ofPieces]
    rw [hrest, ← ih, ofText_append_lineFeed hn]

/-! ## Lines and positions -/

theorem Split.length_eq {ls : List RawLine} (h : Split ls) :
    ls.length = 1 + (join ls).count '\n' := by
  induction h with
  | last hn => simp [text, Ending.text, List.count_eq_zero_of_not_mem hn]
  | lineFeed hn _ _ ih =>
    simp only [List.length_cons, ih, join_cons, text, Ending.text, List.count_append,
      List.count_eq_zero_of_not_mem hn, List.count_singleton_self]
    omega
  | carriageReturnLineFeed hn _ ih =>
    have hend : List.count '\n' ['\r', '\n'] = 1 := by decide
    simp only [List.length_cons, ih, join_cons, text, Ending.text, List.count_append,
      List.count_eq_zero_of_not_mem hn, hend]
    omega

/-- Past the end of its line a position stands for the text up to there. -/
theorem textBefore_of_length_le {ls : List RawLine} {n : Nat} {l : RawLine} (h : ls[n]? = some l)
    {character : Nat} (hle : l.content.length ≤ character) :
    textBefore ls ⟨n, character⟩ = textBefore ls ⟨n, l.content.length⟩ := by
  induction ls generalizing n with
  | nil => simp at h
  | cons m ls ih =>
    cases n with
    | zero =>
      obtain rfl : m = l := by simpa using h
      simp [textBefore, List.take_of_length_le hle]
    | succ n =>
      show m.text ++ textBefore ls ⟨n, character⟩ = m.text ++ textBefore ls ⟨n, l.content.length⟩
      rw [ih h]

/-- Where a text may be cut, a walk over what is before the cut ends at a
position. -/
theorem isPosition_walk {ls : List RawLine} (h : Split ls) {a b : Text} (hab : join ls = a ++ b)
    (hs : Seam a b) : IsPosition ls (Position.zero.walk a) := by
  rcases hp : Position.zero.walk a with ⟨line, character⟩
  have hline : line < ls.length := by
    have hcount := Position.line_walk .zero a
    rw [hp] at hcount
    simp only [Position.zero] at hcount
    rw [h.length_eq, hab, List.count_append]
    omega
  have hl := List.getElem?_eq_getElem hline
  refine ⟨ls[line], hl, ?_⟩
  by_contra hgt
  -- otherwise the end of the line would stand for the same text as the position,
  -- and the walk over that text ends at one of them only
  have hpos : IsPosition ls ⟨line, ls[line].content.length⟩ := ⟨ls[line], hl, Nat.le_refl _⟩
  obtain ⟨-, -, -, hwalk⟩ := hpos.exists_seam h
  simp only at hgt
  have hbefore := textBefore_walk h hab hs
  rw [hp, textBefore_of_length_le hl (by omega)] at hbefore
  rw [hbefore, hp, Position.mk.injEq] at hwalk
  omega

/-- The end of the last line stands for all the lines. -/
def EndsWhole (ls : List RawLine) : Prop :=
  ∃ l, ls.getLast? = some l ∧ textBefore ls ⟨ls.length - 1, l.content.length⟩ = join ls

theorem EndsWhole.cons {ls : List RawLine} (h : EndsWhole ls) (l : RawLine) :
    EndsWhole (l :: ls) := by
  obtain ⟨last, hlast, hbefore⟩ := h
  have hpos := List.length_pos_iff.mpr (List.ne_nil_of_mem (List.mem_of_getLast? hlast))
  refine ⟨last, by simp [List.getLast?_cons, hlast], ?_⟩
  rw [List.length_cons, show ls.length + 1 - 1 = ls.length - 1 + 1 by omega, join_cons, ← hbefore]
  rfl

theorem Split.endsWhole {ls : List RawLine} (h : Split ls) : EndsWhole ls := by
  induction h with
  | last _ => exact ⟨_, rfl, by simp [textBefore, text, Ending.text]⟩
  | lineFeed _ _ _ ih => exact ih.cons _
  | carriageReturnLineFeed _ _ ih => exact ih.cons _

end RawLine

theorem Text.utf8Size_pos {t : Text} (h : t ≠ []) : 0 < utf8Size t := by
  cases t with
  | nil => exact absurd rfl h
  | cons c t => exact Nat.add_pos_left c.utf8Size_pos _

namespace Document

/-- A line of the document, and a character of it or the end of its content. -/
def IsPosition (d : Document) (p : Position) : Prop :=
  RawLine.IsPosition d.rawLines p

theorem split_rawLines (d : Document) : RawLine.Split d.rawLines :=
  RawLine.split_ofText d.text

theorem join_rawLines (d : Document) : RawLine.join d.rawLines = d.text :=
  RawLine.join_ofText d.text

theorem offsetAt_lt {d : Document} {p q : Position} (hp : d.IsPosition p) (hq : d.IsPosition q)
    (h : p < q) : d.offsetAt p < d.offsetAt q := by
  obtain ⟨-, -, -, hwp⟩ := hp.exists_seam d.split_rawLines
  obtain ⟨-, -, -, hwq⟩ := hq.exists_seam d.split_rawLines
  have hbetween := RawLine.textBefore_append_textBetween d.rawLines (le_of_lt h)
  have hne : RawLine.textBetween d.rawLines p q ≠ [] := by
    intro hnil
    rw [hnil, List.append_nil] at hbetween
    rw [hbetween, hwq] at hwp
    exact absurd hwp (ne_of_gt h)
  have hpos := Text.utf8Size_pos hne
  rw [← utf8Size_textBefore, ← utf8Size_textBefore, ← hbetween, Text.utf8Size_append]
  omega

/-- What may be cut off in front of the text is what stands before a position. -/
theorem isPosition_walk {d : Document} {a b : Text} (hab : d.text = a ++ b) (hs : Seam a b) :
    d.IsPosition (Position.zero.walk a) ∧ d.offsetAt (Position.zero.walk a) = a.utf8Size := by
  have hjoin : RawLine.join d.rawLines = a ++ b := d.join_rawLines.trans hab
  refine ⟨RawLine.isPosition_walk d.split_rawLines hjoin hs, ?_⟩
  rw [← utf8Size_textBefore, RawLine.textBefore_walk d.split_rawLines hjoin hs]

/-- The offsets of positions are those at which the text may be cut. -/
theorem exists_offsetAt_iff (d : Document) (n : Nat) :
    (∃ p, d.IsPosition p ∧ d.offsetAt p = n) ↔
      ∃ a b, d.text = a ++ b ∧ a.utf8Size = n ∧ Seam a b := by
  constructor
  · rintro ⟨p, hp, rfl⟩
    obtain ⟨b, hb, hs, -⟩ := hp.exists_seam d.split_rawLines
    exact ⟨_, b, d.join_rawLines.symm.trans hb, d.utf8Size_textBefore p, hs⟩
  · rintro ⟨a, b, hab, rfl, hs⟩
    exact ⟨_, isPosition_walk hab hs⟩

/-- Two ranges that meet hold one after the other what both hold together. -/
theorem getText_append (d : Document) {p q r : Position} (hpq : p ≤ q) (hqr : q ≤ r) :
    d.getText ⟨p, q⟩ ++ d.getText ⟨q, r⟩ = d.getText ⟨p, r⟩ := by
  have hp := RawLine.textBefore_append_textBetween d.rawLines hpq
  have hq := RawLine.textBefore_append_textBetween d.rawLines hqr
  have hpr := RawLine.textBefore_append_textBetween d.rawLines (le_trans hpq hqr)
  rw [← hq, ← hp, List.append_assoc] at hpr
  exact (List.append_cancel_left hpr).symm

theorem getText_all (d : Document) : ∃ l, d.lines.getLast? = some l ∧
    d.getText ⟨.zero, l.range.stop⟩ = d.text := by
  obtain ⟨raw, hraw, hbefore⟩ := d.split_rawLines.endsWhole
  have hlast : d.lines.getLast? = some ⟨d.rawLines.length - 1, raw.content⟩ := by
    rw [lines, List.getLast?_map, List.getLast?_zipIdx, hraw]
    simp
  refine ⟨_, hlast, ?_⟩
  have hstart : RawLine.textBefore d.rawLines .zero = [] := by
    cases d.rawLines <;> rfl
  have hall := RawLine.textBefore_append_textBetween d.rawLines
    (Position.zero_le ⟨d.rawLines.length - 1, raw.content.length⟩)
  rw [hstart, List.nil_append, hbefore, join_rawLines] at hall
  simpa [getText, Line.range, Range.ofWidth] using hall

/-- The positions of a document name the places of its text, each place once. -/
structure AddressesText (d : Document) : Prop where
  /-- A text has one line more than it has line feeds. -/
  lineCount : d.lineCount = 1 + d.text.count '\n'
  /-- A later position has a larger offset. -/
  increasing : ∀ p q, d.IsPosition p → d.IsPosition q → p < q → d.offsetAt p < d.offsetAt q
  /-- Every offset between two characters is that of a position, but for the one
  within a line ending of two characters. -/
  image : ∀ n, (∃ p, d.IsPosition p ∧ d.offsetAt p = n) ↔
    ∃ a b, d.text = a ++ b ∧ a.utf8Size = n ∧ Seam a b
  /-- Ranges between any positions, valid or not, fit together. -/
  append : ∀ p q r, p ≤ q → q ≤ r → d.getText ⟨p, q⟩ ++ d.getText ⟨q, r⟩ = d.getText ⟨p, r⟩
  /-- From the start to the end of the last line there is the whole text. -/
  whole : ∃ l, d.lines.getLast? = some l ∧ d.getText ⟨.zero, l.range.stop⟩ = d.text
  /-- The lines are those that cutting the text after every line feed gives. -/
  pieces : (∃ ps, RawLine.Pieces d.text ps) ∧
    ∀ ps, RawLine.Pieces d.text ps → d.rawLines = RawLine.ofPieces ps

theorem addressesText (d : Document) : d.AddressesText where
  lineCount := by
    rw [lineCount, d.split_rawLines.length_eq, join_rawLines]
  increasing := fun _ _ hp hq h => offsetAt_lt hp hq h
  image := d.exists_offsetAt_iff
  append := fun _ _ _ hpq hqr => d.getText_append hpq hqr
  whole := d.getText_all
  pieces := ⟨RawLine.exists_pieces d.text, fun _ h => RawLine.ofText_eq_ofPieces h⟩

end Document

end KafkaScript
