import KafkaScript.Proofs.Text.Cursor
import KafkaScript.Template

/-!
# What a scan finds

`Pairing.Finds` says which expressions a text has: the first opening braces begin
one, the first closing braces after them end it, and the text behind those is
read in the same way. Scanning finds exactly these (`finds_scan`).

From the cuts that this makes follow that the expressions stay within the text
(`Finds.within`), that each ends before the next one begins (`Finds.pairwise`), and
which text stands at them (`Finds.holdsAt_closed`, `Finds.holdsAt_unclosed`).
-/

namespace KafkaScript

open Text (Seam)

/-- The opening whose braces begin at a position. -/
def Opening.ofStart (p : Position) : Opening :=
  ⟨p, p.walk openMark⟩

namespace Pairing

/-- The expressions of a text that begins at a position. Every mark is the first
one that could be: no gap between expressions has opening braces, no inner text
has closing braces, not even together with the mark that follows. -/
inductive Finds : Position → Text → Pairing → Prop where
  | plain {p : Position} {gap : Text} : ¬ openMark <:+: gap → Finds p gap ⟨[], none⟩
  | unclosed {p : Position} {gap inner : Text} :
      ¬ openMark <:+: gap ++ ['\x7b'] → ¬ closeMark <:+: inner →
      Finds p (gap ++ openMark ++ inner)
        ⟨[], some ((Opening.ofStart (p.walk gap)).unclosedAt (p.walk (gap ++ openMark ++ inner)))⟩
  | closed {p : Position} {gap inner rest : Text} {found : Pairing} :
      ¬ openMark <:+: gap ++ ['\x7b'] → ¬ closeMark <:+: inner ++ ['\x7d'] →
      Finds (p.walk (gap ++ openMark ++ inner ++ closeMark)) rest found →
      Finds p (gap ++ openMark ++ inner ++ closeMark ++ rest)
        ⟨(Opening.ofStart (p.walk gap)).closedBy (p.walk (gap ++ openMark ++ inner))
          (p.walk (gap ++ openMark ++ inner ++ closeMark)) :: found.closed, found.unclosed⟩

/-- The expressions of a text that begins at a position within an expression. -/
inductive FindsAfter (o : Opening) : Position → Text → Pairing → Prop where
  | unclosed {p : Position} {inner : Text} : ¬ closeMark <:+: inner →
      FindsAfter o p inner ⟨[], some (o.unclosedAt (p.walk inner))⟩
  | closed {p : Position} {inner rest : Text} {found : Pairing} :
      ¬ closeMark <:+: inner ++ ['\x7d'] → Finds (p.walk (inner ++ closeMark)) rest found →
      FindsAfter o p (inner ++ closeMark ++ rest)
        ⟨o.closedBy (p.walk inner) (p.walk (inner ++ closeMark)) :: found.closed, found.unclosed⟩

/-- Opening braces right at the start. -/
theorem FindsAfter.finds {p : Position} {t : Text} {found : Pairing}
    (h : FindsAfter (.ofStart p) (p.walk openMark) t found) : Finds p (openMark ++ t) found := by
  cases h with
  | @unclosed inner hc =>
    have := @Finds.unclosed p [] t (by decide) hc
    simpa [Position.walk_append] using this
  | @closed inner rest found hc hrest =>
    have hrest' : Finds (p.walk ([] ++ openMark ++ inner ++ closeMark)) rest found := by
      simpa [Position.walk_append] using hrest
    have := @Finds.closed p [] inner rest found (by decide) hc hrest'
    simpa [Position.walk_append] using this

/-- A character that begins no opening braces. -/
theorem Finds.cons {p : Position} {c : Char} {t : Text} {found : Pairing}
    (h : Finds (p.next c) t found) (hc : ¬ openMark <+: c :: t) : Finds p (c :: t) found := by
  cases h with
  | plain hg =>
    refine .plain ?_
    rw [List.infix_cons_iff]
    exact not_or.mpr ⟨hc, hg⟩
  | @unclosed _ gap inner hg hi =>
    have hg' : ¬ openMark <:+: (c :: gap) ++ ['\x7b'] := by
      rw [List.cons_append, List.infix_cons_iff]
      refine not_or.mpr ⟨fun hp => hc (hp.trans ?_), hg⟩
      exact ⟨'\x7b' :: inner, by simp [openMark]⟩
    exact Finds.unclosed (p := p) hg' hi
  | @closed _ gap inner rest found hg hi hrest =>
    have hg' : ¬ openMark <:+: (c :: gap) ++ ['\x7b'] := by
      rw [List.cons_append, List.infix_cons_iff]
      refine not_or.mpr ⟨fun hp => hc (hp.trans ?_), hg⟩
      exact ⟨'\x7b' :: (inner ++ closeMark ++ rest), by simp [openMark]⟩
    exact Finds.closed (p := p) hg' hi hrest

/-- A character that begins no closing braces. -/
theorem FindsAfter.cons {o : Opening} {p : Position} {c : Char} {t : Text} {found : Pairing}
    (h : FindsAfter o (p.next c) t found) (hc : ¬ closeMark <+: c :: t) :
    FindsAfter o p (c :: t) found := by
  cases h with
  | unclosed hi =>
    refine FindsAfter.unclosed (p := p) ?_
    rw [List.infix_cons_iff]
    exact not_or.mpr ⟨hc, hi⟩
  | @closed inner rest found hi hrest =>
    have hi' : ¬ closeMark <:+: (c :: inner) ++ ['\x7d'] := by
      rw [List.cons_append, List.infix_cons_iff]
      refine not_or.mpr ⟨fun hp => hc (hp.trans ?_), hi⟩
      exact ⟨'\x7d' :: rest, by simp [closeMark]⟩
    exact FindsAfter.closed (p := p) hi' hrest

end Pairing

/-- Two braces are passed one after the other. -/
theorem Cursor.advanceN_two {c : Cursor} {b : Char} {t : Text} (hb : b ≠ '\r')
    (hrest : c.rest = b :: b :: t) :
    (c.advanceN 2).rest = t ∧ (c.advanceN 2).pos = c.pos.walk [b, b] := by
  have hadv : c.advance = ⟨b :: t, c.index + b.utf8Size, c.pos.next b⟩ := by
    rcases advance_cons hrest with ⟨-, h⟩ | ⟨u, hr, -⟩
    · exact h
    · exact absurd hr hb
  have hadv' : c.advance.advance = ⟨t, c.advance.index + b.utf8Size, c.advance.pos.next b⟩ := by
    rcases advance_cons (c := c.advance) (by rw [hadv]) with ⟨-, h⟩ | ⟨u, hr, -⟩
    · exact h
    · exact absurd hr hb
  have htwo : c.advanceN 2 = c.advance.advance := by simp [advanceN, atEnd, hrest, hadv]
  rw [htwo, hadv', hadv]
  exact ⟨rfl, rfl⟩

namespace Pairing

/-! ## What a scan does at a cursor -/

theorem scanFrom_of_nil (pending : Option Opening) {c : Cursor} (h : c.rest = []) :
    scanFrom pending c = ⟨[], pending.map (·.unclosedAt c.pos)⟩ := by
  rw [scanFrom.eq_def, dif_pos h]

section Step

variable {c : Cursor} {o : Opening} (hne : c.rest ≠ [])

include hne

theorem scanFrom_open (h : c.startsWith openMark = true) :
    scanFrom none c = scanFrom (some ⟨c.pos, (c.advanceN 2).pos⟩) (c.advanceN 2) := by
  rw [scanFrom.eq_def, dif_neg hne]
  exact if_pos h

theorem scanFrom_plain (h : ¬ c.startsWith openMark = true) :
    scanFrom none c = scanFrom none c.advance := by
  rw [scanFrom.eq_def, dif_neg hne]
  exact if_neg h

theorem scanFrom_close (h : c.startsWith closeMark = true) :
    scanFrom (some o) c = ⟨o.closedBy c.pos (c.advanceN 2).pos ::
      (scanFrom none (c.advanceN 2)).closed, (scanFrom none (c.advanceN 2)).unclosed⟩ := by
  rw [scanFrom.eq_def, dif_neg hne]
  exact if_pos h

theorem scanFrom_inner (h : ¬ c.startsWith closeMark = true) :
    scanFrom (some o) c = scanFrom (some o) c.advance := by
  rw [scanFrom.eq_def, dif_neg hne]
  exact if_neg h

end Step

/-- A step over a text that begins no mark changes nothing in what is found. -/
private theorem finds_of_advance (finds : Position → Text → Prop) {brace : Char} {mark : Text}
    (hbrace : brace ≠ '\n')
    (hcons : ∀ p c t, finds (p.next c) t → ¬ brace :: mark <+: c :: t → finds p (c :: t))
    {c : Cursor} (hne : c.rest ≠ []) (hmark : ¬ brace :: mark <+: c.rest)
    (h : finds c.advance.pos c.advance.rest) : finds c.pos c.rest := by
  obtain ⟨ch, t, hrest⟩ := List.exists_cons_of_ne_nil hne
  rw [hrest] at hmark ⊢
  rcases Cursor.advance_cons hrest with ⟨-, hadv⟩ | ⟨u, rfl, rfl, hadv⟩
  · rw [hadv] at h
    exact hcons _ _ _ h hmark
  · rw [hadv] at h
    refine hcons _ _ _ (hcons _ _ _ h ?_) hmark
    rw [List.cons_prefix_cons]
    exact fun hp => hbrace hp.1

/-- A scan finds the expressions that are there. -/
theorem finds_scanFrom (pending : Option Opening) (c : Cursor) :
    match pending with
    | none => Finds c.pos c.rest (scanFrom none c)
    | some o => FindsAfter o c.pos c.rest (scanFrom (some o) c) := by
  induction pending, c using scanFrom.induct with
  | case1 pending c hend =>
    cases pending with
    | none =>
      show Finds c.pos c.rest (scanFrom none c)
      rw [scanFrom_of_nil none hend, hend]
      exact .plain (by decide)
    | some o =>
      show FindsAfter o c.pos c.rest (scanFrom (some o) c)
      rw [scanFrom_of_nil (some o) hend, hend]
      exact @FindsAfter.unclosed o c.pos [] (by decide)
  | case2 c hne hopen ih =>
    show Finds c.pos c.rest (scanFrom none c)
    obtain ⟨t, ht⟩ := List.isPrefixOf_iff_prefix.mp hopen
    obtain ⟨hrest, hpos⟩ := Cursor.advanceN_two (b := '\x7b') (by decide) ht.symm
    simp only [hrest, hpos] at ih
    rw [scanFrom_open hne hopen, ← ht, hpos]
    exact FindsAfter.finds ih
  | case3 c hne hopen ih =>
    show Finds c.pos c.rest (scanFrom none c)
    rw [scanFrom_plain hne hopen]
    rw [Cursor.startsWith, List.isPrefixOf_iff_prefix] at hopen
    exact finds_of_advance (fun p t => Finds p t _) (by decide)
      (fun p c t h hc => h.cons hc) hne hopen ih
  | case4 c hne o hclose ih =>
    show FindsAfter o c.pos c.rest (scanFrom (some o) c)
    obtain ⟨t, ht⟩ := List.isPrefixOf_iff_prefix.mp hclose
    obtain ⟨hrest, hpos⟩ := Cursor.advanceN_two (b := '\x7d') (by decide) ht.symm
    simp only [hrest, hpos] at ih
    rw [scanFrom_close hne hclose, ← ht, hpos]
    exact @FindsAfter.closed o c.pos [] t _ (by decide) ih
  | case5 c hne o hclose ih =>
    show FindsAfter o c.pos c.rest (scanFrom (some o) c)
    rw [scanFrom_inner hne hclose]
    rw [Cursor.startsWith, List.isPrefixOf_iff_prefix] at hclose
    exact finds_of_advance (fun p t => FindsAfter o p t _) (by decide)
      (fun p c t h hc => h.cons hc) hne hclose ih

theorem finds_scan (content : Text) (origin : Position) :
    Finds origin content (scan content origin) :=
  finds_scanFrom none (.start content origin)

/-! ## Order -/

/-- The closed expressions and then the one left open. -/
def all (found : Pairing) : List Expression :=
  found.closed ++ found.unclosed.toList

end Pairing

/-- The parts of an expression follow each other. -/
structure Expression.Ordered (e : Expression) : Prop where
  start_le_inner : e.range.start ≤ e.inner.start
  inner_ordered : e.inner.start ≤ e.inner.stop
  inner_le_stop : e.inner.stop ≤ e.range.stop

theorem Expression.Ordered.start_le_stop {e : Expression} (h : e.Ordered) :
    e.range.start ≤ e.range.stop :=
  le_trans h.start_le_inner (le_trans h.inner_ordered h.inner_le_stop)

theorem Opening.ordered_closedBy {p q r : Position} (hq : p.walk openMark ≤ q) (hr : q ≤ r) :
    ((Opening.ofStart p).closedBy q r).Ordered :=
  ⟨Position.le_walk p openMark, hq, hr⟩

theorem Opening.ordered_unclosedAt {p q : Position} (hq : p.walk openMark ≤ q) :
    ((Opening.ofStart p).unclosedAt q).Ordered :=
  ⟨Position.le_walk p openMark, hq, le_refl q⟩

namespace Pairing

/-- Every expression lies within the text. -/
theorem Finds.within {p : Position} {t : Text} {found : Pairing} (h : Finds p t found) :
    ∀ e ∈ found.all, p ≤ e.range.start ∧ e.Ordered ∧ e.range.stop ≤ p.walk t := by
  induction h with
  | plain _ => simp [all]
  | @unclosed p gap inner _ _ =>
    intro e he
    simp only [all, Option.toList_some, List.nil_append, List.mem_singleton] at he
    subst he
    refine ⟨Position.le_walk p gap, Opening.ordered_unclosedAt ?_, le_refl _⟩
    rw [← Position.walk_append]
    exact Position.walk_le_walk_append p (gap ++ openMark) inner
  | @closed p gap inner rest found _ _ _ ih =>
    intro e he
    rcases List.mem_cons.mp he with rfl | he
    · refine ⟨Position.le_walk p gap, Opening.ordered_closedBy ?_ ?_, ?_⟩
      · rw [← Position.walk_append]
        exact Position.walk_le_walk_append p (gap ++ openMark) inner
      · exact Position.walk_le_walk_append p (gap ++ openMark ++ inner) closeMark
      · exact Position.walk_le_walk_append p (gap ++ openMark ++ inner ++ closeMark) rest
    · obtain ⟨hstart, hord, hstop⟩ := ih e he
      refine ⟨le_trans (Position.le_walk p _) hstart, hord, ?_⟩
      rwa [Position.walk_append _ _ rest]

/-- Every expression ends before the next one begins. -/
theorem Finds.pairwise {p : Position} {t : Text} {found : Pairing} (h : Finds p t found) :
    found.all.Pairwise fun a b => a.range.stop ≤ b.range.start := by
  induction h with
  | plain _ => simp [all]
  | unclosed _ _ => simp [all]
  | closed _ _ hrest ih => exact List.pairwise_cons.mpr ⟨fun b hb => (hrest.within b hb).1, ih⟩

/-! ## The text of an expression -/

/-- A closed expression is its inner text between two marks. -/
theorem Finds.holdsAt_closed {t : Text} {p : Position} {content : Text} {found : Pairing}
    (h : Finds p content found) (hc : t.HoldsAt ⟨p, p.walk content⟩ content) :
    ∀ e ∈ found.closed, ∃ inner, t.HoldsAt e.inner inner ∧
      t.HoldsAt e.range (openMark ++ inner ++ closeMark) := by
  induction h with
  | plain _ => simp
  | unclosed _ _ => simp
  | @closed p gap inner rest found _ _ _ ih =>
    intro e he
    rcases List.mem_cons.mp he with rfl | he
    · refine ⟨inner, ?_, ?_⟩
      · have := hc.part (x := gap ++ openMark) (y := inner) (z := closeMark ++ rest) (by simp)
          (.of_getLast (by simp [openMark]) _) (.of_head (by simp [closeMark]) _)
        simpa [Opening.closedBy, Opening.ofStart, Position.walk_append] using this
      · have := hc.part (x := gap) (y := openMark ++ inner ++ closeMark) (z := rest) (by simp)
          (.of_head (by simp [openMark]) _) (.of_getLast (by simp [closeMark]) _)
        simpa [Opening.closedBy, Opening.ofStart, Position.walk_append] using this
    · refine ih ?_ e he
      have := hc.part (x := gap ++ openMark ++ inner ++ closeMark) (y := rest) (z := []) (by simp)
        (.of_getLast (by simp [closeMark]) _) (Text.seam_nil_right _)
      simpa [Position.walk_append] using this

/-- An expression left open is its mark with its inner text, up to the end. -/
theorem Finds.holdsAt_unclosed {t : Text} {p : Position} {content : Text} {found : Pairing}
    (h : Finds p content found) (hc : t.HoldsAt ⟨p, p.walk content⟩ content) :
    ∀ e ∈ found.unclosed, e.range.stop = p.walk content ∧ ∃ inner, t.HoldsAt e.inner inner ∧
      t.HoldsAt e.range (openMark ++ inner) := by
  induction h with
  | plain _ => simp
  | @unclosed p gap inner _ _ =>
    intro e he
    obtain rfl := Option.some.inj he
    refine ⟨rfl, inner, ?_, ?_⟩
    · have := hc.part (x := gap ++ openMark) (y := inner) (z := []) (by simp)
        (.of_getLast (by simp [openMark]) _) (Text.seam_nil_right _)
      simpa [Opening.unclosedAt, Opening.ofStart, Position.walk_append] using this
    · have := hc.part (x := gap) (y := openMark ++ inner) (z := []) (by simp)
        (.of_head (by simp [openMark]) _) (Text.seam_nil_right _)
      simpa [Opening.unclosedAt, Opening.ofStart, Position.walk_append] using this
  | @closed p gap inner rest found _ _ _ ih =>
    intro e he
    have := hc.part (x := gap ++ openMark ++ inner ++ closeMark) (y := rest) (z := []) (by simp)
      (.of_getLast (by simp [closeMark]) _) (Text.seam_nil_right _)
    rw [Position.walk_append _ _ rest]
    exact ih (by simpa [Position.walk_append] using this) e he

end Pairing

end KafkaScript
