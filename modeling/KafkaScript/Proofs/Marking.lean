import KafkaScript.Proofs.Pairing
import KafkaScript.Proofs.Text.Agreement

/-!
# Texts cut at their marks

A `Marking` is a text cut into gaps, marks and inner texts, and it is `Leftmost` if
every mark is the first that could be. A text has one leftmost marking and no other
(`Finds.exists_marking`, `Marking.eq_of_leftmost`). Where the parts of it begin and
end, walked over one after the other, are the expressions that a scan answers with
(`Pairing.scan?_leftmost`); no scan is refused whose positions all fit in 64 bits
(`Pairing.scan?_eq`).
-/

namespace KafkaScript

/-- A text cut at its marks: its closed expressions, each as the gap before it and
its inner text, the gap behind the last of them, and the inner text of an expression
that is not closed. -/
structure Marking where
  closed : List (Text × Text)
  gap : Text
  unclosed : Option Text
deriving DecidableEq, Repr

namespace Marking

/-- The text up to the last closed expression. -/
def closedText (closed : List (Text × Text)) : Text :=
  closed.flatMap fun (gap, inner) => gap ++ openMark ++ inner ++ closeMark

/-- The text that the parts and the marks make up. -/
def text (m : Marking) : Text :=
  closedText m.closed ++ m.gap ++ match m.unclosed with
    | none => []
    | some inner => openMark ++ inner

/-- Every mark is the first that could be, also when the mark overlaps what stands
before it: a gap has no opening braces, not even together with the first brace of the
mark that follows, and an inner text no closing braces. -/
structure Leftmost (m : Marking) : Prop where
  gaps : ∀ e ∈ m.closed, ¬ openMark <:+: e.1 ++ ['\x7b']
  inners : ∀ e ∈ m.closed, ¬ closeMark <:+: e.2 ++ ['\x7d']
  gap : match m.unclosed with
    | none => ¬ openMark <:+: m.gap
    | some _ => ¬ openMark <:+: m.gap ++ ['\x7b']
  unclosed : ∀ inner ∈ m.unclosed, ¬ closeMark <:+: inner

/-- The closed expressions where the first gap begins at a position: the walk goes
over a gap, the mark, the inner text and the other mark. -/
def expressionsFrom (p : Position) : List (Text × Text) → List Expression
  | [] => []
  | (gap, inner) :: closed =>
    let start := p.walk gap
    let innerStart := start.walk openMark
    let innerStop := innerStart.walk inner
    let stop := innerStop.walk closeMark
    ⟨⟨start, stop⟩, ⟨innerStart, innerStop⟩, true⟩ :: expressionsFrom stop closed

/-- The expression that is not closed, where its gap begins at a position. It goes on
to the end. -/
def unclosedFrom (p : Position) (gap inner : Text) : Expression :=
  let start := p.walk gap
  let innerStart := start.walk openMark
  let stop := innerStart.walk inner
  ⟨⟨start, stop⟩, ⟨innerStart, stop⟩, false⟩

/-- The expressions of a text that begins at a position. -/
def pairing (m : Marking) (origin : Position) : Pairing :=
  ⟨expressionsFrom origin m.closed,
    m.unclosed.map (unclosedFrom (origin.walk (closedText m.closed)) m.gap)⟩

end Marking

/-- The inner text stands two characters from each mark's outer end. An expression
that is not closed has no mark at its end. -/
structure Expression.Braced (e : Expression) : Prop where
  start : e.inner.start = ⟨e.range.start.line, e.range.start.character + 2⟩
  stop : e.range.stop = if e.closed then ⟨e.inner.stop.line, e.inner.stop.character + 2⟩
    else e.inner.stop

/-! ## A text has one leftmost marking -/

namespace Text

variable {b : Char} {x x' y y' : Text}

/-- Two equal characters that stand together at the start of a text are the first
such two. -/
theorem eq_nil_of_pair {u : Text} (hu : ¬ [b, b] <:+: u ++ [b])
    (h : [b, b] ++ y = u ++ [b, b] ++ y') : u = [] := by
  rcases u with _ | ⟨c, _ | ⟨d, u⟩⟩
  · rfl
  · obtain rfl : b = c := (List.cons.inj h).1
    exact absurd ⟨[], [], rfl⟩ hu
  · obtain ⟨rfl, hbehind⟩ := List.cons.inj h
    obtain rfl : b = d := (List.cons.inj hbehind).1
    exact absurd ⟨[], u ++ [b], rfl⟩ hu

theorem eq_of_append_pair (hx : ¬ [b, b] <:+: x ++ [b]) (hx' : ¬ [b, b] <:+: x' ++ [b])
    (h : x ++ [b, b] ++ y = x' ++ [b, b] ++ y') : x = x' ∧ y = y' := by
  rw [List.append_assoc, List.append_assoc] at h
  suffices hxx : x = x' by
    subst hxx
    simpa using h
  -- one of the two goes on past the other, up to the same two characters
  rcases List.append_eq_append_iff.mp h with ⟨u, rfl, hu⟩ | ⟨u, rfl, hu⟩
  · rw [List.append_assoc] at hx'
    have hnil := eq_nil_of_pair (fun hp => hx' (hp.trans (List.suffix_append x _).isInfix))
      (hu.trans (List.append_assoc _ _ _).symm)
    rw [hnil, List.append_nil]
  · rw [List.append_assoc] at hx
    have hnil := eq_nil_of_pair (fun hp => hx (hp.trans (List.suffix_append x' _).isInfix))
      (hu.trans (List.append_assoc _ _ _).symm)
    rw [hnil, List.append_nil]

theorem infix_of_append_pair (h : x = x' ++ [b, b] ++ y) : [b, b] <:+: x :=
  ⟨x', y, h.symm⟩

end Text

namespace Marking

@[simp] theorem closedText_nil : closedText [] = [] := rfl

@[simp] theorem closedText_cons (e : Text × Text) (closed : List (Text × Text)) :
    closedText (e :: closed) = e.1 ++ openMark ++ e.2 ++ closeMark ++ closedText closed := rfl

theorem text_cons (e : Text × Text) (closed : List (Text × Text)) (gap : Text)
    (unclosed : Option Text) : text ⟨e :: closed, gap, unclosed⟩ =
      e.1 ++ openMark ++ (e.2 ++ closeMark ++ text ⟨closed, gap, unclosed⟩) := by
  simp [text]

theorem text_nil_none (gap : Text) : text ⟨[], gap, none⟩ = gap := by
  simp [text]

theorem text_nil_some (gap inner : Text) :
    text ⟨[], gap, some inner⟩ = gap ++ openMark ++ inner := by
  simp [text]

theorem Leftmost.of_cons {e : Text × Text} {closed : List (Text × Text)} {gap : Text}
    {unclosed : Option Text} (h : Leftmost ⟨e :: closed, gap, unclosed⟩) :
    Leftmost ⟨closed, gap, unclosed⟩ :=
  ⟨fun d hd => h.gaps d (List.mem_cons_of_mem e hd),
    fun d hd => h.inners d (List.mem_cons_of_mem e hd), h.gap, h.unclosed⟩

theorem Leftmost.cons {m : Marking} (h : m.Leftmost) {gap inner : Text}
    (hgap : ¬ openMark <:+: gap ++ ['\x7b']) (hinner : ¬ closeMark <:+: inner ++ ['\x7d']) :
    Leftmost ⟨(gap, inner) :: m.closed, m.gap, m.unclosed⟩ :=
  ⟨List.forall_mem_cons.mpr ⟨hgap, h.gaps⟩, List.forall_mem_cons.mpr ⟨hinner, h.inners⟩, h.gap,
    h.unclosed⟩

/-- A text in which an expression is closed has no marking in which none is. -/
theorem Leftmost.not_closed {gap : Text} {unclosed : Option Text} {e : Text × Text} {t : Text}
    (h : Leftmost ⟨[], gap, unclosed⟩) (he : ¬ openMark <:+: e.1 ++ ['\x7b']) :
    text ⟨[], gap, unclosed⟩ ≠ e.1 ++ openMark ++ (e.2 ++ closeMark ++ t) := by
  intro heq
  cases unclosed with
  | none =>
    rw [text_nil_none] at heq
    exact h.gap (Text.infix_of_append_pair heq)
  | some inner =>
    rw [text_nil_some] at heq
    have hinner := (Text.eq_of_append_pair h.gap he heq).2
    exact h.unclosed inner rfl (Text.infix_of_append_pair hinner)

/-- No text has two leftmost markings. -/
theorem eq_of_leftmost {m m' : Marking} (h : m.Leftmost) (h' : m'.Leftmost)
    (heq : m.text = m'.text) : m = m' := by
  obtain ⟨closed, gap, unclosed⟩ := m
  obtain ⟨closed', gap', unclosed'⟩ := m'
  induction closed generalizing closed' with
  | nil =>
    cases closed' with
    | cons e closed' =>
      rw [text_cons] at heq
      exact absurd heq (h.not_closed (h'.gaps e List.mem_cons_self))
    | nil =>
      cases unclosed with
      | none =>
        cases unclosed' with
        | none => simpa [text] using heq
        | some inner' =>
          rw [text_nil_none, text_nil_some] at heq
          exact absurd (Text.infix_of_append_pair heq) h.gap
      | some inner =>
        cases unclosed' with
        | none =>
          rw [text_nil_none, text_nil_some] at heq
          exact absurd (Text.infix_of_append_pair heq.symm) h'.gap
        | some inner' =>
          rw [text_nil_some, text_nil_some] at heq
          obtain ⟨rfl, rfl⟩ := Text.eq_of_append_pair h.gap h'.gap heq
          rfl
  | cons e closed ih =>
    rw [text_cons] at heq
    cases closed' with
    | nil => exact absurd heq.symm (h'.not_closed (h.gaps e List.mem_cons_self))
    | cons e' closed' =>
      rw [text_cons] at heq
      have hhere := List.mem_cons_self (a := e) (l := closed)
      have hhere' := List.mem_cons_self (a := e') (l := closed')
      obtain ⟨hgap, hbehind⟩ := Text.eq_of_append_pair (h.gaps e hhere) (h'.gaps e' hhere') heq
      obtain ⟨hinner, hrest⟩ :=
        Text.eq_of_append_pair (h.inners e hhere) (h'.inners e' hhere') hbehind
      obtain ⟨rfl, rfl, rfl⟩ : closed = closed' ∧ gap = gap' ∧ unclosed = unclosed' := by
        simpa using ih h.of_cons closed' h'.of_cons hrest
      rw [Prod.ext hgap hinner]

end Marking

/-! ## What a scan finds is marked -/

/-- The expressions that a text has are those of a leftmost marking of it. -/
theorem Pairing.Finds.exists_marking {p : Position} {t : Text} {found : Pairing}
    (h : Finds p t found) : ∃ m : Marking, m.text = t ∧ m.Leftmost ∧ found = m.pairing p := by
  induction h with
  | @plain p gap hgap =>
    exact ⟨⟨[], gap, none⟩, Marking.text_nil_none gap, ⟨by simp, by simp, hgap, by simp⟩, rfl⟩
  | @unclosed p gap inner hgap hinner =>
    refine ⟨⟨[], gap, some inner⟩, Marking.text_nil_some gap inner,
      ⟨by simp, by simp, hgap, by simpa using hinner⟩, ?_⟩
    simp [Marking.pairing, Marking.expressionsFrom, Marking.unclosedFrom, Opening.unclosedAt,
      Opening.ofStart, Position.walk_append]
  | @closed p gap inner rest found hgap hinner _ ih =>
    obtain ⟨m, rfl, hleft, rfl⟩ := ih
    refine ⟨⟨(gap, inner) :: m.closed, m.gap, m.unclosed⟩, ?_, hleft.cons hgap hinner, ?_⟩
    · rw [Marking.text_cons]
      simp
    · simp [Marking.pairing, Marking.expressionsFrom, Opening.closedBy, Opening.ofStart,
        Position.walk_append]

/-- Marks stand on one line. -/
theorem Marking.braced_of_mem_pairing (m : Marking) (p : Position) :
    ∀ e ∈ (m.pairing p).all, e.Braced := by
  have hclosed : ∀ closed p, ∀ e ∈ expressionsFrom p closed, e.Braced := by
    intro closed
    induction closed with
    | nil => simp [expressionsFrom]
    | cons d closed ih =>
      intro p e he
      rcases List.mem_cons.mp he with rfl | he
      · exact ⟨rfl, rfl⟩
      · exact ih _ e he
  intro e he
  rcases List.mem_append.mp he with he | he
  · exact hclosed m.closed p e he
  · obtain ⟨inner, -, rfl⟩ := Option.map_eq_some_iff.mp (Option.mem_toList.mp he)
    exact ⟨rfl, rfl⟩

/-! ## Within 64 bits -/

/-- A walk raises no coordinate by more than there are characters. -/
theorem Position.walk_le_add_length (p : Position) (t : Text) :
    (p.walk t).line ≤ p.line + t.length ∧ (p.walk t).character ≤ p.character + t.length := by
  induction t generalizing p with
  | nil => simp
  | cons c t ih =>
    have hnext : (p.next c).line ≤ p.line + 1 ∧ (p.next c).character ≤ p.character + 1 := by
      unfold next
      split <;> simp
    have htail := ih (p.next c)
    rw [walk_cons, List.length_cons]
    omega

variable {content : Text} {origin : Position}

/-- No step is refused on the way over a text whose positions all fit in 64 bits. -/
theorem Cursor.Reaches.accepted {c : Cursor} (hc : (start content origin).Reaches c)
    (h : ∀ a, a <+: content → (origin.walk a).Addressable) : c.advance? = .ok c.advance := by
  obtain ⟨passed, hpassed⟩ := hc.advance.exists_passed
  refine advance?_eq ?_
  rw [hpassed.pos]
  exact h passed ⟨_, hpassed.text.symm⟩

theorem Cursor.drain?_eq (h : ∀ a, a <+: content → (origin.walk a).Addressable) :
    (start content origin).drain? = .ok (advanceN content.length (start content origin)) :=
  advanceN?_eq (fun _ hd => hd.accepted h) _

theorem Pairing.scan?_eq (h : ∀ a, a <+: content → (origin.walk a).Addressable) :
    scan? content origin = .ok (scan content origin) := by
  rw [scan?, Cursor.drain?_eq h]
  rfl

/-- The expressions of a text whose coordinates stay within 64 bits are those of its
only leftmost marking, walked over from where the text begins. -/
theorem Pairing.scan?_leftmost (hline : origin.line + content.length ≤ maxUInt64)
    (hcharacter : origin.character + content.length ≤ maxUInt64) :
    ∃ m : Marking, m.text = content ∧ m.Leftmost ∧ scan? content origin = .ok (m.pairing origin) ∧
      (∀ e ∈ (m.pairing origin).all, e.Braced) ∧
      ∀ m' : Marking, m'.text = content → m'.Leftmost → m' = m := by
  obtain ⟨m, htext, hleft, hfound⟩ := (finds_scan content origin).exists_marking
  refine ⟨m, htext, hleft, ?_, m.braced_of_mem_pairing origin, ?_⟩
  · rw [← hfound]
    refine scan?_eq fun a ha => ?_
    have hwalk := Position.walk_le_add_length origin a
    have hlength := ha.length_le
    constructor <;> omega
  · intro m' htext' hleft'
    exact Marking.eq_of_leftmost hleft' hleft (htext'.trans htext.symm)

/-- Closing braces with nothing open, three opening braces in a row, a line ending
within an expression, three closing braces, and one brace too few at the end. -/
theorem Pairing.scan?_leftmost_braces :
    let content := "\x7d\x7d\x7b\x7b\x7ba\r\n\x7d\x7d\x7d\x7b\x7b\x7d".toList
    let origin : Position := ⟨3, maxUInt64 - 14⟩
    origin.line + content.length ≤ maxUInt64 ∧ origin.character + content.length ≤ maxUInt64 ∧
      scan? content origin = .ok ⟨[⟨⟨⟨3, maxUInt64 - 12⟩, ⟨4, 2⟩⟩, ⟨⟨3, maxUInt64 - 10⟩, ⟨4, 0⟩⟩, true⟩],
        some ⟨⟨⟨4, 3⟩, ⟨4, 6⟩⟩, ⟨⟨4, 5⟩, ⟨4, 6⟩⟩, false⟩⟩ := by
  intro content origin
  have hline : origin.line + content.length ≤ maxUInt64 := by decide
  have hcharacter : origin.character + content.length ≤ maxUInt64 := by decide
  obtain ⟨m, -, -, hscan, -, hunique⟩ := scan?_leftmost hline hcharacter
  let cut : Marking := ⟨[("\x7d\x7d".toList, "\x7ba\r\n".toList)], "\x7d".toList, some "\x7d".toList⟩
  have hleft : cut.Leftmost := ⟨by decide, by decide, by decide, by decide⟩
  rw [← hunique cut rfl hleft] at hscan
  exact ⟨hline, hcharacter, hscan⟩

end KafkaScript
