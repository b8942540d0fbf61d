import KafkaScript.Proofs.Reading

/-!
# Reading does not depend on how lines end

A text without carriage returns may have one put before each of its line feeds.
It then has the same lines, and no position in it moves: a walk forgets what it
read before a line feed (`Position.walk_withReturns`), a cursor passes the two
characters in one step (`Cursor.Mirrors`), and to trimming both are blank
(`Text.trim_withReturns`). So every part of a script is read as before, and only the
values of producer blocks, which may go over several lines, keep the line endings
of the text (`Script.read_withReturns`).
-/

namespace KafkaScript

/-! ## Texts -/

namespace Text

/-- A line feed with a carriage return before it, and any other character alone. -/
def returned (c : Char) : Text :=
  if c = '\n' then ['\r', '\n'] else [c]

/-- The text with a carriage return before each line feed. -/
def withReturns (t : Text) : Text :=
  t.flatMap returned

@[simp] theorem withReturns_nil : withReturns [] = [] := rfl

theorem withReturns_cons (c : Char) (t : Text) :
    withReturns (c :: t) = returned c ++ withReturns t := rfl

@[simp] theorem withReturns_append (s t : Text) :
    withReturns (s ++ t) = withReturns s ++ withReturns t :=
  List.flatMap_append

@[simp] theorem returned_of_ne {c : Char} (h : c ≠ '\n') : returned c = [c] :=
  if_neg h

@[simp] theorem withReturns_eq_nil_iff {t : Text} : withReturns t = [] ↔ t = [] := by
  cases t with
  | nil => simp
  | cons c t =>
    rw [withReturns_cons, returned]
    split <;> simp

/-- What has no line feed stays as it is. -/
theorem withReturns_of_not_mem {t : Text} (h : '\n' ∉ t) : withReturns t = t := by
  induction t with
  | nil => rfl
  | cons c t ih =>
    simp only [List.mem_cons, not_or] at h
    rw [withReturns_cons, returned_of_ne (Ne.symm h.1), ih h.2]
    rfl

/-! ## Trimming -/

/-- Characters may be expanded before or after those at the start are dropped, if
what is dropped expands to what is dropped and anything else stays. -/
theorem dropWhile_flatMap {p : Char → Bool} {f : Char → Text}
    (hkeep : ∀ c, p c = true → ∀ d ∈ f c, p d = true)
    (hstop : ∀ c, p c = false → f c = [c]) (t : Text) :
    (t.flatMap f).dropWhile p = (t.dropWhile p).flatMap f := by
  induction t with
  | nil => rfl
  | cons c t ih =>
    rw [List.flatMap_cons]
    by_cases hc : p c = true
    · rw [List.dropWhile_append_of_pos (hkeep c hc), ih, List.dropWhile_cons_of_pos hc]
    · have hf := hstop c (by simpa using hc)
      rw [hf, List.dropWhile_cons_of_neg hc, List.flatMap_cons, hf, List.cons_append,
        List.dropWhile_cons_of_neg hc]

theorem isBlank_of_mem_returned {c : Char} (h : isBlank c = true) :
    ∀ d ∈ returned c, isBlank d = true := by
  intro d hd
  unfold returned at hd
  split at hd
  · rcases List.mem_pair.mp hd with rfl | rfl
    · rfl
    · rfl
  · rwa [List.mem_singleton.mp hd]

theorem returned_of_not_isBlank {c : Char} (h : isBlank c = false) : returned c = [c] := by
  apply returned_of_ne
  rintro rfl
  exact absurd h (by decide)

theorem trimStart_withReturns (t : Text) : (withReturns t).trimStart = withReturns t.trimStart :=
  dropWhile_flatMap (fun _ => isBlank_of_mem_returned) (fun _ => returned_of_not_isBlank) t

theorem reverse_withReturns (t : Text) :
    (withReturns t).reverse = t.reverse.flatMap fun c => (returned c).reverse :=
  List.reverse_flatMap

/-- From behind, the line feed comes first. -/
theorem trimEnd_withReturns (t : Text) : (withReturns t).trimEnd = withReturns t.trimEnd := by
  have hdrop := dropWhile_flatMap (p := isBlank) (f := fun c => (returned c).reverse)
    (fun c hc d hd => isBlank_of_mem_returned hc d (List.mem_reverse.mp hd))
    (fun c hc => by rw [returned_of_not_isBlank hc]; rfl) t.reverse
  rw [trimEnd, reverse_withReturns, hdrop, trimEnd, ← List.reverse_inj, reverse_withReturns,
    List.reverse_reverse, List.reverse_reverse]

theorem trim_withReturns (t : Text) : (withReturns t).trim = withReturns t.trim := by
  rw [trim, trimStart_withReturns, trimEnd_withReturns, trim]

theorem leadingBlanks_withReturns (t : Text) :
    (withReturns t).leadingBlanks = withReturns t.leadingBlanks := by
  have hcut := congrArg withReturns (leadingBlanks_append_trimStart t)
  rw [withReturns_append, ← trimStart_withReturns] at hcut
  exact List.append_cancel_right ((leadingBlanks_append_trimStart _).trans hcut.symm)

end Text

/-- A mark without line endings begins the one text if it begins the other. -/
theorem Text.prefix_withReturns_iff {s t : Text} (hlf : '\n' ∉ s) (hcr : '\r' ∉ s) :
    s <+: t.withReturns ↔ s <+: t := by
  induction s generalizing t with
  | nil => simp
  | cons c s ih =>
    simp only [List.mem_cons, not_or] at hlf hcr
    cases t with
    | nil => rfl
    | cons d t =>
      rw [withReturns_cons, returned]
      by_cases hd : d = '\n'
      · rw [if_pos hd, hd, List.cons_append, List.cons_prefix_cons, List.cons_prefix_cons]
        exact iff_of_false (fun h => hcr.1 h.1.symm) (fun h => hlf.1 h.1.symm)
      · rw [if_neg hd, List.singleton_append, List.cons_prefix_cons, List.cons_prefix_cons,
          ih hlf.2 hcr.2]

theorem Position.walk_withReturns (p : Position) (t : Text) : p.walk t.withReturns = p.walk t := by
  induction t generalizing p with
  | nil => rfl
  | cons c t ih =>
    rw [Text.withReturns_cons, walk_append, ih, walk_cons]
    by_cases hc : c = '\n'
    · subst hc
      rfl
    · rw [Text.returned_of_ne hc]
      rfl

/-! ## Lines -/

namespace RawLine

/-- The line with a carriage return before the line feed that ends it. -/
def withReturn (l : RawLine) : RawLine :=
  match l.ending with
  | .none => l
  | _ => ⟨l.content, .carriageReturnLineFeed⟩

/-- There is no carriage return before the line feed that ends the line. -/
def IsBare (l : RawLine) : Prop :=
  '\n' ∉ l.content ∧ l.ending ≠ .carriageReturnLineFeed

@[simp] theorem content_withReturn (l : RawLine) : l.withReturn.content = l.content := by
  unfold withReturn
  split <;> rfl

theorem ending_withReturn {l : RawLine} (h : l.IsBare) :
    l.withReturn.ending.text = l.ending.text.withReturns := by
  rcases l with ⟨content, _ | _ | _⟩
  · rfl
  · rfl
  · exact absurd rfl h.2

theorem text_withReturn {l : RawLine} (h : l.IsBare) :
    l.withReturn.text = l.text.withReturns := by
  rw [text, text, content_withReturn, ending_withReturn h, Text.withReturns_append,
    Text.withReturns_of_not_mem h.1]

theorem join_map_withReturn {ls : List RawLine} (h : ∀ l ∈ ls, l.IsBare) :
    join (ls.map withReturn) = (join ls).withReturns := by
  induction ls with
  | nil => rfl
  | cons l ls ih =>
    rw [List.forall_mem_cons] at h
    rw [List.map_cons, join_cons, text_withReturn h.1, ih h.2, join_cons,
      Text.withReturns_append]

theorem Split.map_withReturn {ls : List RawLine} (h : Split ls) :
    Split (ls.map withReturn) := by
  induction h with
  | last hn => exact .last hn
  | lineFeed hn _ _ ih => exact .carriageReturnLineFeed hn ih
  | carriageReturnLineFeed hn _ ih => exact .carriageReturnLineFeed hn ih

theorem isBare_of_mem_ofText {t : Text} (h : '\r' ∉ t) : ∀ l ∈ ofText t, l.IsBare := by
  intro l hl
  refine ⟨(split_ofText t).not_mem l hl, fun hending => h ?_⟩
  rw [← join_ofText t]
  refine List.mem_flatMap.mpr ⟨l, hl, ?_⟩
  simp [text, hending, Ending.text]

/-- The lines end differently, and that is all. -/
theorem ofText_withReturns {t : Text} (h : '\r' ∉ t) :
    ofText t.withReturns = (ofText t).map withReturn := by
  have hjoin := join_map_withReturn (isBare_of_mem_ofText h)
  rw [join_ofText] at hjoin
  rw [← hjoin]
  exact ofText_join (split_ofText t).map_withReturn

theorem withReturns_take {l : RawLine} (h : l.IsBare) (n : Nat) :
    Text.withReturns (l.content.take n) = l.content.take n :=
  Text.withReturns_of_not_mem fun hm => h.1 (List.mem_of_mem_take hm)

theorem withReturns_drop {l : RawLine} (h : l.IsBare) (n : Nat) :
    Text.withReturns (l.content.drop n) = l.content.drop n :=
  Text.withReturns_of_not_mem fun hm => h.1 (List.mem_of_mem_drop hm)

theorem textBefore_withReturn {ls : List RawLine} (h : ∀ l ∈ ls, l.IsBare) (p : Position) :
    textBefore (ls.map withReturn) p = (textBefore ls p).withReturns := by
  induction ls generalizing p with
  | nil => rfl
  | cons l ls ih =>
    rw [List.forall_mem_cons] at h
    rcases p with ⟨_ | line, character⟩
    · rw [List.map_cons, textBefore, textBefore, content_withReturn, withReturns_take h.1]
    · rw [List.map_cons, textBefore, textBefore, ih h.2, text_withReturn h.1,
        Text.withReturns_append]

/-- The same range holds the same text, with its own line endings. -/
theorem textBetween_withReturn {ls : List RawLine} (h : ∀ l ∈ ls, l.IsBare) (p q : Position) :
    textBetween (ls.map withReturn) p q = (textBetween ls p q).withReturns := by
  induction ls generalizing p q with
  | nil => rfl
  | cons l ls ih =>
    rw [List.forall_mem_cons] at h
    rw [List.map_cons]
    rcases p with ⟨_ | line, first⟩ <;> rcases q with ⟨_ | line', last⟩
    · rw [textBetween, textBetween, content_withReturn]
      refine (Text.withReturns_of_not_mem fun hm => h.1.1 ?_).symm
      exact List.mem_of_mem_take (List.mem_of_mem_drop hm)
    · rw [textBetween, textBetween, textBefore_withReturn h.2, content_withReturn,
        ending_withReturn h.1, Text.withReturns_append, Text.withReturns_append,
        withReturns_drop h.1]
    · rfl
    · rw [textBetween, textBetween, ih h.2]

end RawLine

/-! ## Expressions -/

namespace Cursor

/-- A cursor stands at the same position over the same text but for its line
endings. -/
structure Mirrors (c' c : Cursor) : Prop where
  rest : c'.rest = c.rest.withReturns
  pos : c'.pos = c.pos

variable {c' c : Cursor}

theorem Mirrors.rest_eq_nil_iff (h : Mirrors c' c) : c'.rest = [] ↔ c.rest = [] := by
  rw [h.rest, Text.withReturns_eq_nil_iff]

theorem Mirrors.atEnd (h : Mirrors c' c) : c'.atEnd = c.atEnd := by
  rw [Cursor.atEnd, Cursor.atEnd, Bool.eq_iff_iff, List.isEmpty_iff, List.isEmpty_iff,
    h.rest_eq_nil_iff]

/-- The mirrored cursor passes both characters of a line ending at once. -/
theorem Mirrors.advance (h : Mirrors c' c) (hcr : '\r' ∉ c.rest) :
    Mirrors c'.advance c.advance := by
  by_cases hend : c.rest = []
  · rwa [advance_of_rest_nil hend, advance_of_rest_nil (h.rest_eq_nil_iff.mpr hend)]
  · obtain ⟨ch, t, hrest⟩ := List.exists_cons_of_ne_nil hend
    rw [hrest, List.mem_cons, not_or] at hcr
    have hrest' := h.rest
    rw [hrest, Text.withReturns_cons] at hrest'
    rcases advance_cons hrest with ⟨-, hadv⟩ | ⟨u, rfl, -⟩
    · by_cases hlf : ch = '\n'
      · subst hlf
        rcases advance_cons hrest' with ⟨hs, -⟩ | ⟨u, -, hu, hadv'⟩
        · exact absurd rfl (hs rfl)
        · obtain rfl : Text.withReturns t = u := by simpa using hu
          rw [hadv, hadv', h.pos]
          exact ⟨rfl, rfl⟩
      · rw [Text.returned_of_ne hlf, List.singleton_append] at hrest'
        rcases advance_cons hrest' with ⟨-, hadv'⟩ | ⟨u, hr, -⟩
        · rw [hadv, hadv', h.pos]
          exact ⟨rfl, rfl⟩
        · exact absurd hr.symm hcr.1
    · exact absurd rfl hcr.1

theorem not_mem_rest_advance {ch : Char} (h : ch ∉ c.rest) : ch ∉ c.advance.rest := by
  by_cases hend : c.rest = []
  · rwa [advance_of_rest_nil hend]
  · obtain ⟨s, hs, -⟩ := advance_spec hend
    intro hm
    apply h
    rw [hs]
    exact List.mem_append_right s hm

theorem Mirrors.advanceN (h : Mirrors c' c) (hcr : '\r' ∉ c.rest) (n : Nat) :
    Mirrors (c'.advanceN n) (c.advanceN n) := by
  induction n generalizing c' c with
  | zero => exact h
  | succ n ih =>
    rw [Cursor.advanceN, Cursor.advanceN, h.atEnd]
    split
    · exact h
    · exact ih (h.advance hcr) (not_mem_rest_advance hcr)

theorem not_mem_rest_advanceN {ch : Char} (n : Nat) {c : Cursor} (h : ch ∉ c.rest) :
    ch ∉ (c.advanceN n).rest := by
  induction n generalizing c with
  | zero => exact h
  | succ n ih =>
    rw [Cursor.advanceN]
    split
    · exact h
    · exact ih (not_mem_rest_advance h)

theorem Mirrors.startsWith (h : Mirrors c' c) {mark : Text} (hlf : '\n' ∉ mark)
    (hcr : '\r' ∉ mark) : c'.startsWith mark = c.startsWith mark := by
  rw [Cursor.startsWith, Cursor.startsWith, h.rest, Bool.eq_iff_iff,
    List.isPrefixOf_iff_prefix, List.isPrefixOf_iff_prefix, Text.prefix_withReturns_iff hlf hcr]

end Cursor

/-- What a scan finds depends on positions only, and these are the same. -/
theorem Pairing.scanFrom_mirrors (pending : Option Opening) {c c' : Cursor}
    (h : Cursor.Mirrors c' c) (hcr : '\r' ∉ c.rest) : scanFrom pending c' = scanFrom pending c := by
  induction pending, c using scanFrom.induct generalizing c' with
  | case1 pending c hend =>
    rw [scanFrom_of_nil _ hend, scanFrom_of_nil _ (h.rest_eq_nil_iff.mpr hend), h.pos]
  | case2 c hne hopen ih =>
    have hne' := fun hend => hne (h.rest_eq_nil_iff.mp hend)
    have hopen' := (h.startsWith (by decide) (by decide)).trans hopen
    have htwo := h.advanceN hcr 2
    rw [scanFrom_open hne' hopen', scanFrom_open hne hopen, h.pos, htwo.pos]
    exact ih htwo (Cursor.not_mem_rest_advanceN 2 hcr)
  | case3 c hne hopen ih =>
    have hne' := fun hend => hne (h.rest_eq_nil_iff.mp hend)
    have hopen' : ¬ c'.startsWith openMark = true := by
      rwa [h.startsWith (by decide) (by decide)]
    rw [scanFrom_plain hne' hopen', scanFrom_plain hne hopen]
    exact ih (h.advance hcr) (Cursor.not_mem_rest_advance hcr)
  | case4 c hne o hclose ih =>
    have hne' := fun hend => hne (h.rest_eq_nil_iff.mp hend)
    have hclose' := (h.startsWith (by decide) (by decide)).trans hclose
    have htwo := h.advanceN hcr 2
    rw [scanFrom_close hne' hclose', scanFrom_close hne hclose, h.pos, htwo.pos,
      ih htwo (Cursor.not_mem_rest_advanceN 2 hcr)]
  | case5 c hne o hclose ih =>
    have hne' := fun hend => hne (h.rest_eq_nil_iff.mp hend)
    have hclose' : ¬ c'.startsWith closeMark = true := by
      rwa [h.startsWith (by decide) (by decide)]
    rw [scanFrom_inner hne' hclose', scanFrom_inner hne hclose]
    exact ih (h.advance hcr) (Cursor.not_mem_rest_advance hcr)

theorem Pairing.scan_withReturns {content : Text} (h : '\r' ∉ content) (origin : Position) :
    scan content.withReturns origin = scan content origin :=
  scanFrom_mirrors none ⟨rfl, rfl⟩ h

/-! ## Scripts -/

/-- The same template at the same place, with a carriage return before each line
feed of its text. -/
def Template.withReturns (t : Template) : Template :=
  { t with chunk := { t.chunk with content := t.chunk.content.withReturns } }

/-- The same block but for the text of its value. -/
def Block.withReturns : Block → Block
  | .producer b => .producer { b with value := b.value.map Template.withReturns }
  | .consumer b => .consumer b

/-- The same script but for the texts of the values of its producer blocks. -/
def Script.withReturns (s : Script) : Script :=
  { s with blocks := s.blocks.map Block.withReturns }

/-- The same document with a carriage return before each line feed. -/
def Document.withReturns (d : Document) : Document :=
  { d with text := d.text.withReturns }

theorem Template.ofChunk_withReturns {c : TextChunk} (h : '\r' ∉ c.content) :
    ofChunk { c with content := c.content.withReturns } = (ofChunk c).withReturns := by
  unfold ofChunk withReturns
  simp only [Pairing.scan_withReturns h]

theorem Template.trimmed?_withReturns {raw : Text} (h : '\r' ∉ raw) (origin : Position) :
    trimmed? raw.withReturns origin = (trimmed? raw origin).map withReturns := by
  unfold trimmed?
  rw [Text.trim_withReturns, Text.leadingBlanks_withReturns]
  by_cases hblank : raw.trim = []
  · rw [if_pos hblank, if_pos (Text.withReturns_eq_nil_iff.mpr hblank)]
    rfl
  · have htrim : '\r' ∉ raw.trim := fun hm => h (by
      rw [← raw.leading_trim_trailing]
      simp [hm])
    rw [if_neg hblank, if_neg fun hnil => hblank (Text.withReturns_eq_nil_iff.mp hnil),
      ← Text.withReturns_append, Position.walk_withReturns, Position.walk_withReturns,
      Option.map_some, ← ofChunk_withReturns htrim]

namespace RawLine

theorem not_mem_textBetween {ls : List RawLine} {ch : Char} (h : ch ∉ join ls)
    (p q : Position) : ch ∉ textBetween ls p q := by
  rcases le_total p q with hle | hle
  · intro hm
    have hfront := textBefore_prefix ls q
    rw [← textBefore_append_textBetween ls hle] at hfront
    exact h (hfront.subset (List.mem_append_right _ hm))
  · simp [textBetween_eq_nil ls hle]

end RawLine

namespace Document

variable {d : Document}

theorem rawLines_withReturns (h : '\r' ∉ d.text) :
    d.withReturns.rawLines = d.rawLines.map RawLine.withReturn :=
  RawLine.ofText_withReturns h

theorem lines_withReturns (h : '\r' ∉ d.text) : d.withReturns.lines = d.lines := by
  rw [lines, rawLines_withReturns h, List.zipIdx_map, List.map_map, lines]
  congr 1
  funext p
  simp

end Document

theorem ProducerBlock.valueFrom?_withReturns {d : Document} (h : '\r' ∉ d.text)
    (stop : Position) (l : Line) :
    valueFrom? d.withReturns.rawLines stop l =
      (valueFrom? d.rawLines stop l).map Template.withReturns := by
  have hjoin : '\r' ∉ RawLine.join d.rawLines := by
    rwa [Document.rawLines, RawLine.join_ofText]
  have hbare : ∀ l ∈ d.rawLines, l.IsBare := RawLine.isBare_of_mem_ofText h
  rw [valueFrom?, Document.rawLines_withReturns h, RawLine.textBetween_withReturn hbare]
  exact Template.trimmed?_withReturns (RawLine.not_mem_textBetween hjoin _ _) _

theorem Block.ofLines_withReturns {d : Document} (h : '\r' ∉ d.text) (catalog : Catalog)
    (kind : BlockKind) (ls : List Line) :
    ofLines d.withReturns.rawLines catalog kind ls =
      (ofLines d.rawLines catalog kind ls).withReturns := by
  cases kind with
  | consumer => rfl
  | producer =>
    have hvalue : ∀ stop, (ProducerBlock.valueLine? catalog ls.tail).bind
        (ProducerBlock.valueFrom? d.withReturns.rawLines stop) =
          ((ProducerBlock.valueLine? catalog ls.tail).bind
            (ProducerBlock.valueFrom? d.rawLines stop)).map Template.withReturns := by
      intro stop
      cases ProducerBlock.valueLine? catalog ls.tail with
      | none => rfl
      | some l => exact ProducerBlock.valueFrom?_withReturns h stop l
    simp only [ofLines, hvalue]
    rfl

/-- A text whose lines end in bare line feeds has the same script as the text in
which they end in carriage returns and line feeds: the same blocks, properties and
expressions at the same places. Only the text of a value has the line endings of
the text it stands in. -/
theorem Script.read_withReturns {d : Document} (catalog : Catalog) (h : '\r' ∉ d.text) :
    ∃ s, read d catalog = .ok s ∧ read d.withReturns catalog = .ok s.withReturns := by
  refine ⟨_, read_eq d catalog, ?_⟩
  rw [read_eq, Document.lines_withReturns h]
  simp only [ofLines, withReturns, List.map_map, Block.ofLines_withReturns h]
  rfl

/-- A value over several lines, with blank lines before it and expressions that go
over line endings. -/
theorem Script.read_withReturns_value :
    let d : Document := .kafka [] "PRODUCER\nkey: \x7b\x7bk\n\n \n\x7b\x7ba\nb\x7d\x7d\n\n\x7b\x7bc\n".toList
    '\r' ∉ d.text ∧ ∃ s, read d .standard = .ok s ∧
      read d.withReturns .standard = .ok s.withReturns :=
  ⟨by decide, read_withReturns .standard (by decide)⟩

end KafkaScript
