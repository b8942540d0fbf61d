import KafkaScript.Proofs.Body
import KafkaScript.Proofs.Marking

/-!
# Where a value is anchored

The value of a producer block is trimmed, and a cursor over the untrimmed text is sent
to both ends of what is left. It takes steps as long as it has passed fewer bytes than
it is to pass, and a step may pass more than one byte. Neither end of a trimmed text
lies within a character or between a carriage return and its line feed, so the steps
never lead past it (`Cursor.exists_lands`). Where the cursor stands then, any other
cursor from the same origin stands at the same offset (`Cursor.Reaches.pos_eq`), and
there the scan of the trimmed text comes to its end (`Pairing.ends_scanFrom`).
-/

namespace KafkaScript

open Text (Seam)

/-- Two fronts of a text with the same number of bytes are the same. -/
theorem Text.eq_of_utf8Size_eq {a a' b b' : Text} (h : a ++ b = a' ++ b')
    (hsize : a.utf8Size = a'.utf8Size) : a = a' := by
  rcases List.append_eq_append_iff.mp h with ⟨u, rfl, -⟩ | ⟨u, rfl, -⟩
  · rw [utf8Size_append] at hsize
    by_cases hu : u = []
    · rw [hu, List.append_nil]
    · have := utf8Size_pos hu
      omega
  · rw [utf8Size_append] at hsize
    by_cases hu : u = []
    · rw [hu, List.append_nil]
    · have := utf8Size_pos hu
      omega

namespace Cursor

variable {c d : Cursor} {t : Text} {origin : Position} {offset : Nat}

/-! ## The steps on the way to an offset -/

/-- The cursor is sent to an offset and gets there in this number of steps. -/
structure Lands (c : Cursor) (offset steps : Nat) (d : Cursor) : Prop where
  seek_eq : c.seek offset = .ok d
  advanceN_eq : advanceN steps c = d
  /-- No step is taken without need. -/
  short : ∀ k < steps, (advanceN k c).index < offset
  /-- The last one does not lead past the offset. -/
  index_eq : d.index = offset

theorem advanceN_succ (h : c.rest ≠ []) (n : Nat) : advanceN (n + 1) c = advanceN n c.advance := by
  rw [advanceN, atEnd, List.isEmpty_eq_false_iff.mpr h]
  rfl

/-- A cursor that gets to an offset takes no more steps than there are characters. -/
theorem exists_advanceN_of_seek (h : c.seek offset = .ok d) : ∃ steps ≤ c.rest.length,
    advanceN steps c = d ∧ ∀ k < steps, (advanceN k c).index < offset := by
  induction c using seek.induct offset with
  | case1 c hlt hend =>
    rw [seek, if_pos hlt, dif_pos hend] at h
    contradiction
  | case2 c hlt hrest ih =>
    rw [seek, if_pos hlt, dif_neg hrest] at h
    obtain ⟨steps, hle, hreached, hshort⟩ := ih h
    have hless := rest_advance_length_lt hrest
    refine ⟨steps + 1, by omega, by rw [advanceN_succ hrest, hreached], ?_⟩
    intro k hk
    cases k with
    | zero => exact hlt
    | succ k =>
      rw [advanceN_succ hrest]
      exact hshort k (by omega)
  | case3 c hge =>
    rw [seek, if_neg hge] at h
    exact ⟨0, Nat.zero_le _, Except.ok.inj h, fun k hk => absurd hk (Nat.not_lt_zero k)⟩

/-- Where the text ahead may be cut, a cursor lands exactly. -/
theorem exists_lands {a b : Text} (hs : Seam a b) (hrest : c.rest = a ++ b) :
    ∃ steps ≤ c.rest.length, c.Lands (c.index + a.utf8Size) steps
      ⟨b, c.index + a.utf8Size, c.pos.walk a⟩ := by
  have hseek := seek_eq hs hrest
  obtain ⟨steps, hle, hreached, hshort⟩ := exists_advanceN_of_seek hseek
  exact ⟨steps, hle, hseek, hreached, hshort, rfl⟩

/-! ## Any cursor -/

/-- The offset decides where a cursor stands, whatever calls brought it there. -/
theorem Reaches.pos_eq {a b : Text} (h : (start t origin).Reaches c) (ht : t = a ++ b)
    (hindex : c.index = a.utf8Size) : c.pos = origin.walk a := by
  obtain ⟨passed, hpassed⟩ := h.exists_passed
  have hfront : passed ++ c.rest = a ++ b := hpassed.text.symm.trans ht
  rw [hpassed.pos, Text.eq_of_utf8Size_eq hfront (hpassed.index.symm.trans hindex)]

/-- A cursor that has passed the whole text stands at its end. -/
theorem Reaches.eq_of_rest_nil (h : (start t origin).Reaches c) (hrest : c.rest = []) :
    c.index = t.utf8Size ∧ c.pos = origin.walk t := by
  obtain ⟨passed, hpassed⟩ := h.exists_passed
  have ht : t = passed := by rw [hpassed.text, hrest, List.append_nil]
  rw [ht]
  exact ⟨hpassed.index, hpassed.pos⟩

end Cursor

namespace Pairing

variable {c d : Cursor} {unclosed : Option Expression}

/-- A cursor comes to the end of its text, and an expression that is still open then
ends where the cursor stands. -/
def Ends (c : Cursor) (unclosed : Option Expression) : Prop :=
  ∃ (pending : Option Opening) (d : Cursor), c.Reaches d ∧ d.rest = [] ∧
    unclosed = pending.map (·.unclosedAt d.pos)

theorem Ends.of_reaches (h : c.Reaches d) (hd : Ends d unclosed) : Ends c unclosed := by
  obtain ⟨pending, e, he, hrest, heq⟩ := hd
  exact ⟨pending, e, h.trans he, hrest, heq⟩

/-- A scan moves its cursor to the end of the text. -/
theorem ends_scanFrom (pending : Option Opening) (c : Cursor) :
    Ends c (scanFrom pending c).unclosed := by
  induction pending, c using scanFrom.induct with
  | case1 pending c hend =>
    rw [scanFrom_of_nil pending hend]
    exact ⟨pending, c, .refl, hend, rfl⟩
  | case2 c hne hopen ih =>
    rw [scanFrom_open hne hopen]
    exact ih.of_reaches (.advanceN 2 .refl)
  | case3 c hne hopen ih =>
    rw [scanFrom_plain hne hopen]
    exact ih.of_reaches (.advance .refl)
  | case4 c hne o hclose ih =>
    rw [scanFrom_close hne hclose]
    exact ih.of_reaches (.advanceN 2 .refl)
  | case5 c hne o hclose ih =>
    rw [scanFrom_inner hne hclose]
    exact ih.of_reaches (.advance .refl)

end Pairing

namespace Template

/-- What is asked of the value that is left of a text at `origin` when the blanks before
and behind are taken away. -/
structure Anchored (value : Template) (origin : Position) (before content behind : Text) :
    Prop where
  content_eq : value.chunk.content = content
  kind_eq : value.chunk.kind = .producerValue
  /-- The first walk stops where the content begins. -/
  start : ∃ steps ≤ (before ++ content ++ behind).length,
    (Cursor.start (before ++ content ++ behind) origin).Lands before.utf8Size steps
      ⟨content ++ behind, before.utf8Size, value.chunk.range.start⟩
  /-- The second walk goes on from there and stops where the content ends. -/
  stop : ∃ steps ≤ (content ++ behind).length,
    Cursor.Lands ⟨content ++ behind, before.utf8Size, value.chunk.range.start⟩
      (before ++ content).utf8Size steps
      ⟨behind, (before ++ content).utf8Size, value.chunk.range.stop⟩
  /-- At these two offsets any cursor from the origin stands at the ends of the range. -/
  located : ∀ c, (Cursor.start (before ++ content ++ behind) origin).Reaches c →
    (c.index = before.utf8Size → c.pos = value.chunk.range.start) ∧
      (c.index = (before ++ content).utf8Size → c.pos = value.chunk.range.stop)
  /-- No step of such a cursor leaves 64 bits. -/
  accepted : ∀ c, (Cursor.start (before ++ content ++ behind) origin).Reaches c →
    c.advance? = .ok c.advance
  /-- Nor does the scan of the content. -/
  scan_eq : Pairing.scan? content value.chunk.range.start =
    .ok ⟨value.expressions, value.unclosed⟩
  /-- The scan passes the whole content. -/
  scan_ends : Pairing.Ends (Cursor.start content value.chunk.range.start) value.unclosed
  /-- A cursor that does so from the start of the range stops at its end. -/
  scan_stop : ∀ c, (Cursor.start content value.chunk.range.start).Reaches c → c.rest = [] →
    c.index = content.utf8Size ∧ c.pos = value.chunk.range.stop

variable {raw : Text} {origin : Position}

/-- The value of a text is anchored if every position in the text fits in 64 bits. -/
theorem anchored_of_trimmed? {value : Template} (h : trimmed? raw origin = some value)
    (hfits : ∀ a, a <+: raw → (origin.walk a).Addressable) :
    value.Anchored origin raw.leadingBlanks raw.trim raw.trailingBlanks := by
  obtain ⟨-, rfl⟩ := eq_of_trimmed? h
  have hcut := raw.leading_trim_trailing
  have hfront : raw = raw.leadingBlanks ++ (raw.trim ++ raw.trailingBlanks) := by
    rw [← List.append_assoc, hcut]
  have hstart := Cursor.exists_lands raw.seam_leadingBlanks (c := .start raw origin) hfront
  have hstop := Cursor.exists_lands (.of_append_left raw.seam_trailingBlanks)
    (c := ⟨raw.trim ++ raw.trailingBlanks, raw.leadingBlanks.utf8Size,
      origin.walk raw.leadingBlanks⟩) rfl
  simp only [Cursor.start, Nat.zero_add] at hstart
  refine { content_eq := rfl, kind_eq := rfl, start := ?start, stop := ?stop,
           located := ?located, accepted := ?accepted, scan_eq := ?scan_eq,
           scan_ends := Pairing.ends_scanFrom none _, scan_stop := ?scan_stop }
  case start =>
    rw [hcut]
    exact hstart
  case stop =>
    rw [Text.utf8Size_append, Position.walk_append]
    exact hstop
  case located =>
    rw [hcut]
    exact fun c hc => ⟨hc.pos_eq hfront, hc.pos_eq hcut.symm⟩
  case accepted =>
    rw [hcut]
    exact fun c hc => hc.accepted hfits
  case scan_eq =>
    refine Pairing.scan?_eq fun a ha => ?_
    show ((origin.walk raw.leadingBlanks).walk a).Addressable
    rw [← Position.walk_append]
    have hpassed := (List.prefix_append_right_inj raw.leadingBlanks).mpr ha
    exact hfits _ (hpassed.trans ⟨raw.trailingBlanks, hcut⟩)
  case scan_stop =>
    intro c hc hrest
    rw [Position.walk_append]
    exact hc.eq_of_rest_nil hrest

/-- A text at an origin is read as a value unless it is blank. If the coordinates of the
origin leave room for the characters of the text below 2^64, the value is the trimmed
text, anchored where it stands. -/
theorem ofRaw?_anchored (hline : origin.line + raw.length ≤ maxUInt64)
    (hcharacter : origin.character + raw.length ≤ maxUInt64) :
    ∃ value?, ofRaw? raw origin = .ok value? ∧
      (value? = none ↔ ∀ c ∈ raw, Text.isBlank c = true) ∧
      ∀ value ∈ value?, ∃ before behind, raw = before ++ raw.trim ++ behind ∧
        (∀ c ∈ before ++ behind, Text.isBlank c = true) ∧
        value.Anchored origin before raw.trim behind := by
  have hfits : ∀ a, a <+: raw → (origin.walk a).Addressable := by
    intro a ha
    have hwalk := Position.walk_le_add_length origin a
    have hlength := ha.length_le
    constructor <;> omega
  refine ⟨_, ofRaw?_eq raw origin, ?_, ?_⟩
  · rw [← Text.trim_eq_nil_iff]
    unfold trimmed?
    split
    · next hblank => simp [hblank]
    · next hblank => simp [hblank]
  · intro value hvalue
    refine ⟨_, _, raw.leading_trim_trailing.symm, ?_, anchored_of_trimmed? hvalue hfits⟩
    intro c hc
    rcases List.mem_append.mp hc with hc | hc
    · exact List.mem_takeWhile_imp hc
    · exact List.mem_rtakeWhile_imp hc

/-- Blanks of one byte and of several, a line ending in front, one within the value and
one behind it, right below the limit. -/
theorem ofRaw?_anchored_wide :
    let raw : Text := "\u00a0\r\n\u3000\u00e9\r\n\x7b\x7bx\r\n".toList
    let origin : Position := ⟨maxUInt64 - 12, maxUInt64 - 12⟩
    origin.line + raw.length ≤ maxUInt64 ∧ origin.character + raw.length ≤ maxUInt64 ∧
      ∃ value, ofRaw? raw origin = .ok (some value) ∧
        value.chunk.range = ⟨⟨maxUInt64 - 11, 1⟩, ⟨maxUInt64 - 10, 3⟩⟩ ∧
        ∃ before behind, raw = before ++ "\u00e9\r\n\x7b\x7bx".toList ++ behind ∧
          value.Anchored origin before "\u00e9\r\n\x7b\x7bx".toList behind := by
  intro raw origin
  have hline : origin.line + raw.length ≤ maxUInt64 := by decide
  have hcharacter : origin.character + raw.length ≤ maxUInt64 := by decide
  have htrim : raw.trim = "\u00e9\r\n\x7b\x7bx".toList := by decide
  obtain ⟨value?, hread, -, hanchored⟩ := ofRaw?_anchored hline hcharacter
  have hvalue : value? = some (.ofChunk ⟨raw.trim, ⟨origin.walk raw.leadingBlanks,
      origin.walk (raw.leadingBlanks ++ raw.trim)⟩, .producerValue⟩) := by
    rw [ofRaw?_eq] at hread
    rw [← Except.ok.inj hread]
    exact if_neg (by decide)
  obtain ⟨before, behind, hcut, -, h⟩ := hanchored _ hvalue
  rw [htrim] at hcut h
  exact ⟨hline, hcharacter, _, hvalue ▸ hread, by decide, before, behind, hcut, h⟩

end Template

end KafkaScript
