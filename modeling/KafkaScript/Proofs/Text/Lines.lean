import KafkaScript.Proofs.Text.Walk
import KafkaScript.Text.Document

/-!
# Lines of a text

The lines of a text and the text determine each other: reading a text as lines
gives a list of one shape (`Split`), writing such a list out gives the text back
(`join_ofText`), and reading that gives the same lines (`ofText_join`). Facts
about the lines of a text are therefore proved by induction on `Split`.
-/

namespace KafkaScript

open Text (Seam)

namespace RawLine

/-! ## The shape of the lines of a text -/

/-- The lines that some text is split into. Only the last one has no ending, and
a line that ends in a bare line feed has no carriage return before it. -/
inductive Split : List RawLine → Prop where
  | last {content : Text} : '\n' ∉ content → Split [⟨content, .none⟩]
  | lineFeed {content : Text} {ls : List RawLine} : '\n' ∉ content →
      content.getLast? ≠ some '\r' → Split ls → Split (⟨content, .lineFeed⟩ :: ls)
  | carriageReturnLineFeed {content : Text} {ls : List RawLine} : '\n' ∉ content →
      Split ls → Split (⟨content, .carriageReturnLineFeed⟩ :: ls)

/-- The text that some lines were split from. -/
def join (ls : List RawLine) : Text :=
  ls.flatMap text

@[simp] theorem join_nil : join [] = [] := rfl

@[simp] theorem join_cons (l : RawLine) (ls : List RawLine) : join (l :: ls) = l.text ++ join ls :=
  rfl

theorem Split.ne_nil {ls : List RawLine} (h : Split ls) : ls ≠ [] := by
  cases h <;> simp

/-- No line has a line feed in its content. -/
theorem Split.not_mem {ls : List RawLine} (h : Split ls) : ∀ l ∈ ls, '\n' ∉ l.content := by
  induction h with
  | last hn => simpa using hn
  | lineFeed hn _ _ ih => simpa using ⟨hn, ih⟩
  | carriageReturnLineFeed hn _ ih => simpa using ⟨hn, ih⟩

theorem join_consFirst (c : Char) (ls : List RawLine) : join (consFirst c ls) = c :: join ls := by
  cases ls <;> simp [consFirst, text, Ending.text]

/-- A character that completes no line ending belongs to the first line. -/
theorem Split.consFirst {ls : List RawLine} (h : Split ls) {c : Char} (hc : c ≠ '\n')
    (hs : Seam [c] (join ls)) : Split (consFirst c ls) := by
  cases h with
  | last hn => exact .last (by simpa using ⟨hc.symm, hn⟩)
  | @lineFeed content ls hn hr hls =>
    refine .lineFeed (by simpa using ⟨hc.symm, hn⟩) ?_ hls
    cases content with
    | nil => simpa [Seam, text, Ending.text] using hs
    | cons d content => simpa using hr
  | carriageReturnLineFeed hn hls =>
    exact .carriageReturnLineFeed (by simpa using ⟨hc.symm, hn⟩) hls

/-- What a text begins with, unless that is a line ending, belongs to its first
line. -/
theorem ofText_cons {c : Char} {t : Text} (hc : c ≠ '\n') (hs : Seam [c] t) :
    ofText (c :: t) = consFirst c (ofText t) := by
  rw [ofText]
  · exact fun heq => hc heq
  · rintro u rfl rfl
    exact absurd rfl (hs rfl)

theorem join_ofText (t : Text) : join (ofText t) = t := by
  induction t using ofText.induct with
  | case1 => rfl
  | case2 t ih => simp [ofText, text, Ending.text, ih]
  | case3 t ih => simp [ofText, text, Ending.text, ih]
  | case4 c t hlf hcr ih => rw [ofText_cons hlf (Seam.of_not_lineEnding hcr), join_consFirst, ih]

theorem split_ofText (t : Text) : Split (ofText t) := by
  induction t using ofText.induct with
  | case1 => exact .last (by simp)
  | case2 t ih => exact .lineFeed (by simp) (by simp) ih
  | case3 t ih => exact .carriageReturnLineFeed (by simp) ih
  | case4 c t hlf hcr ih =>
    have hs : Seam [c] t := Seam.of_not_lineEnding hcr
    rw [ofText_cons hlf hs]
    exact ih.consFirst hlf (by rwa [join_ofText])

/-- Characters before the first line ending make up the front of the first
line. -/
theorem ofText_append {content t : Text} (hn : '\n' ∉ content) (hs : Seam content t) :
    ofText (content ++ t) = content.foldr consFirst (ofText t) := by
  induction content with
  | nil => rfl
  | cons c content ih =>
    simp only [List.mem_cons, not_or] at hn
    have hrest : Seam content t := Seam.of_append_left (s := [c]) hs
    have hfirst : Seam [c] (content ++ t) := by
      cases content with
      | nil => exact hs
      | cons d content =>
        refine Seam.of_head ?_ _
        simp only [List.cons_append, List.head?_cons, ne_eq, Option.some.injEq]
        exact fun heq => hn.2 (heq ▸ List.mem_cons_self)
    rw [List.cons_append, ofText_cons (fun heq => hn.1 heq.symm) hfirst, ih hn.2 hrest]
    rfl

theorem foldr_consFirst (content : Text) (e : Ending) (ls : List RawLine) :
    content.foldr consFirst (⟨[], e⟩ :: ls) = ⟨content, e⟩ :: ls := by
  induction content with
  | nil => rfl
  | cons c content ih => rw [List.foldr_cons, ih, consFirst]

/-- Lines of the right shape are the lines of the text they make up. -/
theorem ofText_join {ls : List RawLine} (h : Split ls) : ofText (join ls) = ls := by
  induction h with
  | @last content hn =>
    have := ofText_append hn (Text.seam_nil_right content)
    rw [List.append_nil] at this
    simp only [join_cons, join_nil, List.append_nil, text, Ending.text]
    rw [this, ofText, foldr_consFirst]
  | @lineFeed content ls hn hr _ ih =>
    have : join (⟨content, .lineFeed⟩ :: ls) = content ++ '\n' :: join ls := by
      simp [text, Ending.text]
    rw [this, ofText_append hn (Seam.of_getLast hr _), ofText, ih, foldr_consFirst]
  | @carriageReturnLineFeed content ls hn _ ih =>
    have : join (⟨content, .carriageReturnLineFeed⟩ :: ls) = content ++ '\r' :: '\n' :: join ls := by
      simp [text, Ending.text]
    rw [this, ofText_append hn (Seam.of_head (by simp) _), ofText, ih, foldr_consFirst]

end RawLine

end KafkaScript
