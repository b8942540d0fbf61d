import KafkaScript.Proofs.Segmentation

/-!
# The grammar of blocks

Which lines form a block, said of all lines at once. What a line means depends on
the lines since the last separator: it begins a block if it opens one and none of
these opens a producer block (`Line.Begins`), and a block runs up to the next line
that begins one or separates (`BlockSpan.IsBlock`).

The machine that reads line by line finds exactly these blocks
(`BlockSpan.segments_ofLines`). `BlockState.Follows` says what a state knows of the
lines before it; a step keeps that (`Follows.step`), and from it follows which
block, if any, ends before the next line (`Follows.closedBefore?_iff`).
-/

namespace KafkaScript

namespace Line

variable (ls : List Line)

/-- The line `m` stands before line `n`, and after every separator that stands
before line `n`. -/
def SinceSeparator (n : Nat) (m : Line) : Prop :=
  m ∈ ls ∧ m.number < n ∧ ∀ s ∈ ls, s.isSeparator = true → s.number < n → s.number < m.number

/-- A line begins a block: it opens one, and no line between the last separator
before it, or the beginning, and itself opens a producer block. -/
def Begins (l : Line) : Prop :=
  l.opener?.isSome = true ∧ ∀ m, SinceSeparator ls l.number m → m.opener? ≠ some .producer

/-- What ends a block that is open: a separator, or the beginning of another. -/
def Cuts (l : Line) : Prop :=
  l.isSeparator = true ∨ l.Begins ls

end Line

namespace BlockSpan

/-- The span is a block of the lines: it begins on a line that begins a block, is of
the kind that this line opens, and goes on to the line before the next that cuts, or
to the last line. -/
structure IsBlock (ls : List Line) (span : BlockSpan) : Prop where
  begins : ∃ l ∈ ls, l.number = span.startLine ∧ l.Begins ls ∧ l.opener? = some span.kind
  ordered : span.startLine ≤ span.stopLine
  goesOn : ∀ m ∈ ls, span.startLine < m.number → m.number ≤ span.stopLine → ¬ m.Cuts ls
  stops : ∃ l ∈ ls, l.number = span.stopLine
  ends : ∀ m ∈ ls, m.number = span.stopLine + 1 → m.Cuts ls

/-- The line is one of the span's. -/
def Covers (span : BlockSpan) (l : Line) : Prop :=
  span.startLine ≤ l.number ∧ l.number ≤ span.stopLine

/-- The spans are the blocks of the lines, in order and apart from each other. A
line that begins a block is the first line of one, and a line that belongs to no
block is a separator, or nothing was opened from the last separator up to it. -/
structure Segments (ls : List Line) (spans : List BlockSpan) : Prop where
  mem_iff : ∀ span, span ∈ spans ↔ span.IsBlock ls
  begins_iff : ∀ l ∈ ls, l.Begins ls ↔ ∃ span ∈ spans, span.startLine = l.number
  ordered : spans.Pairwise fun a b => a.stopLine < b.startLine
  uncovered_iff : ∀ l ∈ ls, (∀ span ∈ spans, ¬ span.Covers l) ↔
    l.isSeparator = true ∨ ∀ m, Line.SinceSeparator ls (l.number + 1) m → m.opener? = none

end BlockSpan

/-! ## Lines by their numbers -/

namespace Line

theorem NumberedFrom.eq_of_number {n : Nat} {ls : List Line} (h : NumberedFrom n ls) {l m : Line}
    (hl : l ∈ ls) (hm : m ∈ ls) (heq : l.number = m.number) : l = m := by
  have hget := h.getElem?_of_mem hl
  rw [heq, h.getElem?_of_mem hm] at hget
  exact (Option.some.inj hget).symm

theorem NumberedFrom.exists_number {n k : Nat} {ls : List Line} (h : NumberedFrom n ls)
    (hle : n ≤ k) (hlt : k < n + ls.length) : ∃ l ∈ ls, l.number = k := by
  have hi : k - n < ls.length := by omega
  refine ⟨ls[k - n], List.getElem_mem hi, ?_⟩
  rw [h.getElem? (List.getElem?_eq_getElem hi)]
  omega

theorem NumberedFrom.bounds {n : Nat} {ls : List Line} (h : NumberedFrom n ls) {l : Line}
    (hl : l ∈ ls) : n ≤ l.number ∧ l.number < n + ls.length := by
  obtain ⟨i, hi⟩ := List.mem_iff_getElem?.mp hl
  have hlt := (List.getElem?_eq_some_iff.mp hi).1
  have hnumber := h.getElem? hi
  omega

/-- A separator opens nothing: the two begin with different characters. -/
theorem opener?_of_isSeparator {l : Line} (h : l.isSeparator = true) : l.opener? = none := by
  obtain ⟨t, ht⟩ := List.isPrefixOf_iff_prefix.mp h
  unfold opener?
  rw [← ht]
  rfl

theorem isSeparator_of_opener? {l : Line} {kind : BlockKind} (h : l.opener? = some kind) :
    l.isSeparator = false := by
  rw [Bool.eq_false_iff]
  intro hsep
  rw [opener?_of_isSeparator hsep] at h
  contradiction

/-- A line that opens a block stands since the last separator if none stands behind
it. -/
theorem SinceSeparator.of_opener {n₀ n : Nat} {ls : List Line} {o : Line} {kind : BlockKind}
    (hls : NumberedFrom n₀ ls) (ho : o ∈ ls) (hopen : o.opener? = some kind) (hlt : o.number < n)
    (hsep : ∀ s ∈ ls, o.number < s.number → s.number < n → s.isSeparator = false) :
    SinceSeparator ls n o := by
  refine ⟨ho, hlt, ?_⟩
  intro s hs hssep hsn
  rcases Nat.lt_trichotomy s.number o.number with hlt' | heq | hgt
  · exact hlt'
  · rw [hls.eq_of_number hs ho heq, isSeparator_of_opener? hopen] at hssep
    contradiction
  · rw [hsep s hs hgt hsn] at hssep
    contradiction

/-- What stands since the last separator before a line stands so before an earlier
line as well, if it stands before that at all. -/
theorem SinceSeparator.anti {ls : List Line} {n k : Nat} {m : Line} (h : SinceSeparator ls k m)
    (hle : n ≤ k) (hlt : m.number < n) : SinceSeparator ls n m := by
  obtain ⟨hm, -, hafter⟩ := h
  refine ⟨hm, hlt, ?_⟩
  intro s hs hssep hsn
  exact hafter s hs hssep (by omega)

end Line

namespace BlockState

open Line (SinceSeparator)

/-! ## What a state knows of the lines before it -/

/-- The state is that of the lines before line `n`. Outside of blocks nothing was
opened since the last separator; a block that is open was begun, and no line since
then ends a block of its kind. -/
def Follows (ls : List Line) (n : Nat) : BlockState → Prop
  | outside => ∀ m, SinceSeparator ls n m → m.opener? = none
  | inside kind startLine => startLine < n ∧
      (∃ l ∈ ls, l.number = startLine ∧ l.Begins ls ∧ l.opener? = some kind) ∧
      ∀ m ∈ ls, startLine < m.number → m.number < n → endsAt kind m = false

variable {n₀ n startLine : Nat} {ls : List Line} {kind : BlockKind}

/-- Within a block the lines that cut are those that end a block of its kind: a
consumer block is followed by any that opens one, and a producer block by none
before a separator. -/
theorem cuts_iff_endsAt (hls : Line.NumberedFrom n₀ ls) {l : Line}
    (h : (inside kind startLine).Follows ls l.number) : l.Cuts ls ↔ endsAt kind l = true := by
  obtain ⟨hlt, ⟨o, ho, hnumber, hbegins, hopen⟩, hkept⟩ := h
  subst hnumber
  unfold Line.Cuts endsAt
  cases kind with
  | producer =>
    -- the opening line itself stands since the last separator
    have hnot : ¬ l.Begins ls := by
      intro hl
      refine hl.2 o (.of_opener hls ho hopen hlt ?_) hopen
      intro s hs hgt hsl
      have hkeep := hkept s hs hgt hsl
      rw [endsAt, Bool.or_eq_false_iff] at hkeep
      exact hkeep.1
    simp [hnot]
  | consumer =>
    simp only [beq_self_eq_true, Bool.true_and, Bool.or_eq_true]
    refine or_congr_right ⟨fun hl => hl.1, fun hl => ⟨hl, ?_⟩⟩
    intro m hm hproducer
    rcases Nat.lt_trichotomy m.number o.number with hlt' | heq | hgt
    · exact hbegins.2 m (hm.anti (Nat.le_of_lt hlt) hlt') hproducer
    · rw [hls.eq_of_number hm.1 ho heq, hopen] at hproducer
      contradiction
    · have hkeep := hkept m hm.1 hgt hm.2.1
      simp [endsAt, hproducer] at hkeep

theorem Follows.anti (h : (inside kind startLine).Follows ls n) {k : Nat} (hle : k ≤ n)
    (hlt : startLine < k) : (inside kind startLine).Follows ls k :=
  ⟨hlt, h.2.1, fun m hm hgt hmk => h.2.2 m hm hgt (by omega)⟩

/-- One line keeps what a state knows of the lines before. -/
theorem Follows.step (hls : Line.NumberedFrom n₀ ls) {s : BlockState} {l : Line} (hl : l ∈ ls)
    (h : s.Follows ls l.number) : (s.step l).1.Follows ls (l.number + 1) := by
  rw [step_eq]
  by_cases hkeeps : s.keeps l = true
  · rw [if_pos hkeeps]
    cases s with
    | outside => contradiction
    | inside kind startLine =>
      obtain ⟨hlt, hopened, hkept⟩ := h
      refine ⟨by omega, hopened, ?_⟩
      intro m hm hgt hmn
      by_cases heq : m.number = l.number
      · rw [hls.eq_of_number hm hl heq]
        simpa [keeps] using hkeeps
      · exact hkept m hm hgt (by omega)
  · rw [if_neg hkeeps]
    unfold after
    cases hopen : l.opener? with
    | some kind =>
      -- a line that is not kept and opens a block begins it
      have hbegins : l.Begins ls := by
        cases s with
        | outside =>
          refine ⟨by simp [hopen], ?_⟩
          intro m hm
          simp [h m hm]
        | inside kind' startLine =>
          have hends : endsAt kind' l = true := by simpa [keeps] using hkeeps
          rcases (cuts_iff_endsAt hls h).mpr hends with hsep | hbegins
          · rw [Line.opener?_of_isSeparator hsep] at hopen
            contradiction
          · exact hbegins
      exact ⟨Nat.lt_succ_self _, ⟨l, hl, rfl, hbegins, hopen⟩, fun m _ hgt hlt => by omega⟩
    | none =>
      intro m hm
      by_cases hlt : m.number < l.number
      · cases s with
        | outside => exact h m (hm.anti (Nat.le_succ _) hlt)
        | inside kind' startLine =>
          -- what ends a block without opening one is a separator, and `m` stands before it
          have hsep : l.isSeparator = true := by simpa [keeps, endsAt, hopen] using hkeeps
          have hafter := hm.2.2 l hl hsep (Nat.lt_succ_self _)
          omega
      · have heq : m.number = l.number := by
          have := hm.2.1
          omega
        rw [hls.eq_of_number hm.1 hl heq, hopen]

end BlockState

namespace BlockSpan.IsBlock

open Line (SinceSeparator)

variable {n₀ n : Nat} {ls : List Line} {span : BlockSpan}

/-- From any line of a block, or the one behind it, back to the line that opened it
there is no separator. -/
theorem sinceSeparator (hls : Line.NumberedFrom n₀ ls) (h : span.IsBlock ls)
    (hlow : span.startLine < n) (hhigh : n ≤ span.stopLine + 1) :
    ∃ o, SinceSeparator ls n o ∧ o.number = span.startLine ∧ o.opener? = some span.kind := by
  obtain ⟨o, ho, hnumber, -, hopen⟩ := h.begins
  refine ⟨o, .of_opener hls ho hopen (by omega) ?_, hnumber, hopen⟩
  intro s hs hgt hsn
  rw [Bool.eq_false_iff]
  intro hsep
  exact h.goesOn s hs (by omega) (by omega) (.inl hsep)

end BlockSpan.IsBlock

namespace BlockState

open BlockSpan (IsBlock)

variable {n₀ n : Nat} {ls : List Line} {s : BlockState} {span : BlockSpan}

/-- A block that ends before line `n` is the one that is open. -/
theorem Follows.eq_inside (hls : Line.NumberedFrom n₀ ls) (h : s.Follows ls n)
    (hspan : span.IsBlock ls) (hstop : span.stopLine + 1 = n) :
    s = inside span.kind span.startLine := by
  have hordered := hspan.ordered
  cases s with
  | outside =>
    obtain ⟨o, hsince, -, hopen⟩ := hspan.sinceSeparator hls (n := n) (by omega) (by omega)
    rw [h o hsince] at hopen
    contradiction
  | inside kind startLine =>
    obtain ⟨o, ho, hnumber, hbegins, hopen⟩ := hspan.begins
    obtain ⟨o', ho', hnumber', hbegins', hopen'⟩ := h.2.1
    rcases Nat.lt_trichotomy o.number o'.number with hlt | heq | hgt
    · -- the block goes on past the line where the open one began
      have hlow := h.1
      exact absurd (.inr hbegins') (hspan.goesOn o' ho' (by omega) (by omega))
    · rw [hls.eq_of_number ho ho' heq, hopen'] at hopen
      rw [← hnumber, heq, hnumber', Option.some.inj hopen]
    · -- what is open goes on past the line where the block began
      have hends := (cuts_iff_endsAt hls (h.anti (k := o.number) (by omega) (by omega))).mp (.inr hbegins)
      rw [h.2.2 o ho (by omega) (by omega)] at hends
      contradiction

/-- The blocks that end before line `n`: the one that is open there, unless line `n`
continues it. -/
theorem Follows.closedBefore?_iff (hls : Line.NumberedFrom n₀ ls) (h : s.Follows ls n)
    (hn : n ≤ n₀ + ls.length) : span.IsBlock ls ∧ span.stopLine + 1 = n ↔
      s.closedBefore? n = some span ∧ ∀ l ∈ ls, l.number = n → s.keeps l = false := by
  constructor
  · rintro ⟨hspan, rfl⟩
    have hinside := h.eq_inside hls hspan rfl
    subst hinside
    refine ⟨?_, ?_⟩
    · have hordered := hspan.ordered
      simp [closedBefore?, Nat.max_eq_left hordered]
    · intro l hl hnumber
      have hends := (cuts_iff_endsAt hls (hnumber ▸ h)).mp (hspan.ends l hl hnumber)
      simp [keeps, hends]
  · rintro ⟨hclosed, hkeeps⟩
    cases s with
    | outside => contradiction
    | inside kind startLine =>
      have hlt := h.1
      obtain ⟨o, ho, hnumber, -, -⟩ := h.2.1
      have hfirst := (hls.bounds ho).1
      obtain rfl : ⟨kind, startLine, n - 1⟩ = span := by
        have hmax : max (n - 1) startLine = n - 1 := by omega
        simpa [closedBefore?, hmax] using hclosed
      have hstop : n - 1 + 1 = n := by omega
      refine ⟨⟨h.2.1, Nat.le_sub_one_of_lt hlt, ?_, ?_, ?_⟩, hstop⟩
      · intro m hm hgt hle
        have hmn : m.number < n := Nat.lt_of_le_pred (by omega) hle
        rw [cuts_iff_endsAt hls (h.anti (Nat.le_of_lt hmn) hgt), h.2.2 m hm hgt hmn]
        simp
      · exact hls.exists_number (k := n - 1) (by omega) (by omega)
      · intro m hm hnext
        have hmn : m.number = n := hnext.trans hstop
        rw [cuts_iff_endsAt hls (hmn ▸ h)]
        simpa [keeps] using hkeeps m hm hmn

/-- A line ends the block that goes on up to it. -/
theorem Follows.step_ends_iff (hls : Line.NumberedFrom n₀ ls) {l : Line} (hl : l ∈ ls)
    (h : s.Follows ls l.number) (span : BlockSpan) :
    (s.step l).2 = some span ↔ span.IsBlock ls ∧ span.stopLine + 1 = l.number := by
  have hbounds := hls.bounds hl
  rw [h.closedBefore?_iff hls (by omega), step_eq]
  by_cases hkeeps : s.keeps l = true
  · rw [if_pos hkeeps]
    refine iff_of_false (by simp) ?_
    rintro ⟨-, hnot⟩
    rw [hnot l hl rfl] at hkeeps
    contradiction
  · rw [if_neg hkeeps]
    refine (and_iff_left ?_).symm
    intro m hm hnumber
    rw [hls.eq_of_number hm hl hnumber]
    simpa using hkeeps

/-- What is open after a line was opened before the next one. -/
theorem At.step {last : Option Nat} {l : Line} (h : s.At last l.number) :
    (s.step l).1.At (some l.number) (l.number + 1) := by
  rw [step_eq]
  split
  · exact h.keep
  · exact at_after l

end BlockState

namespace BlockSpan

open BlockState (inside outside)
open Line (SinceSeparator)

/-! ## A whole run -/

variable {n₀ : Nat} (before : List Line) {ls : List Line} {s : BlockState} {last : Option Nat}

/-- What holds of the state before a line holds of the state behind it, with the line
among those before. -/
theorem follows_past {l : Line} (hls : Line.NumberedFrom n₀ (before ++ l :: ls))
    (hs : s.At last (n₀ + before.length)) (h : s.Follows (before ++ l :: ls) (n₀ + before.length)) :
    l.number = n₀ + before.length ∧
      (s.step l).1.At (some l.number) (n₀ + (before ++ [l]).length) ∧
      (s.step l).1.Follows (before ++ [l] ++ ls) (n₀ + (before ++ [l]).length) := by
  have hnumber : l.number = n₀ + before.length := hls.getElem? (by simp)
  have hnext : n₀ + (before ++ [l]).length = l.number + 1 := by simp [hnumber, Nat.add_assoc]
  rw [← hnumber] at hs h
  rw [hnext, ← List.append_cons]
  exact ⟨hnumber, hs.step, h.step hls (by simp)⟩

/-- From a state on, the machine finds the blocks that end no earlier than right
before the next line. -/
theorem mem_from?_iff (hls : Line.NumberedFrom n₀ (before ++ ls))
    (hs : s.At last (n₀ + before.length)) (h : s.Follows (before ++ ls) (n₀ + before.length))
    (span : BlockSpan) : span ∈ from? s last ls ↔
      span.IsBlock (before ++ ls) ∧ n₀ + before.length ≤ span.stopLine + 1 := by
  induction ls generalizing before s last with
  | nil =>
    -- the end of the lines ends what is open, as there is no line to continue it
    rw [List.append_nil] at hls h ⊢
    have hnone : ∀ l ∈ before, l.number = n₀ + before.length → s.keeps l = false := by
      intro l hl hnumber
      have hlt := (hls.bounds hl).2
      omega
    rw [from?, hs.finish, Option.mem_toList]
    rw [← and_iff_left (a := s.closedBefore? _ = some span) hnone,
      ← h.closedBefore?_iff hls (Nat.le_refl _)]
    refine and_congr_right fun hspan => ?_
    obtain ⟨l, hl, hnumber⟩ := hspan.stops
    have hlt := (hls.bounds hl).2
    omega
  | cons l ls ih =>
    obtain ⟨hnumber, hat, hstep⟩ := follows_past before hls hs h
    rw [← hnumber] at h ⊢
    have hends := h.step_ends_iff hls (by simp) span
    rw [List.append_cons] at hls hends ⊢
    rw [from?, List.mem_append, Option.mem_toList, hends, ih _ hls hat hstep, ← and_or_left]
    refine and_congr_right fun _ => ?_
    rw [List.length_append, List.length_singleton]
    omega

/-- What is open before line `n` becomes a block that ends no earlier than right
before that line. -/
theorem exists_from?_inside {n startLine : Nat} {kind : BlockKind} (hls : Line.NumberedFrom n ls)
    (hs : (inside kind startLine).At last n) : ∃ span ∈ from? (inside kind startLine) last ls,
      span.startLine = startLine ∧ n ≤ span.stopLine + 1 := by
  induction ls generalizing last n with
  | nil =>
    rw [from?, hs.finish]
    refine ⟨_, List.mem_singleton_self _, rfl, ?_⟩
    simp only
    omega
  | cons l ls ih =>
    obtain ⟨rfl, hls⟩ := hls
    rw [from?_cons]
    by_cases hkeeps : (inside kind startLine).keeps l = true
    · rw [if_pos hkeeps]
      obtain ⟨span, hspan, hstart, hstop⟩ := ih hls hs.keep
      exact ⟨span, hspan, hstart, by omega⟩
    · rw [if_neg hkeeps]
      refine ⟨_, List.mem_append_left _ (List.mem_singleton_self _), rfl, ?_⟩
      simp only
      omega

/-- A line belongs to a block if something was opened from the last separator up to
it. -/
theorem exists_from?_covers {l m : Line} (hls : Line.NumberedFrom n₀ (before ++ ls))
    (hs : s.At last (n₀ + before.length)) (h : s.Follows (before ++ ls) (n₀ + before.length))
    (hl : l ∈ ls) (hm : SinceSeparator (before ++ ls) (l.number + 1) m) (hopen : m.opener? ≠ none) :
    ∃ span ∈ from? s last ls, span.Covers l := by
  induction ls generalizing before s last with
  | nil => contradiction
  | cons k ls ih =>
    obtain ⟨hnumber, hat, hstep⟩ := follows_past before hls hs h
    rw [List.append_cons] at hls hm
    rcases List.mem_cons.mp hl with rfl | hl
    · -- the state after the line cannot be outside, and what is open covers the line
      have hnext : n₀ + (before ++ [l]).length = l.number + 1 := by simp [hnumber, Nat.add_assoc]
      cases hafter : (s.step l).1 with
      | outside =>
        rw [hafter, hnext] at hstep
        exact absurd (hstep m hm) hopen
      | inside kind startLine =>
        rw [hafter] at hat hstep
        have hrest := (Line.NumberedFrom.append.mp hls).2
        obtain ⟨span, hspan, hstart, hstop⟩ := exists_from?_inside hrest hat
        have hlt := hstep.1
        refine ⟨span, ?_, by omega, by omega⟩
        rw [from?, hafter]
        exact List.mem_append_right _ hspan
    · obtain ⟨span, hspan, hcovers⟩ := ih _ hls hat hstep hl hm
      exact ⟨span, List.mem_append_right _ hspan, hcovers⟩

theorem follows_outside (hls : Line.NumberedFrom n₀ ls) : outside.Follows ls n₀ := by
  intro m hm
  have hlow := (hls.bounds hm.1).1
  have hlt := hm.2.1
  omega

theorem mem_ofLines_iff (hls : Line.NumberedFrom n₀ ls) (span : BlockSpan) :
    span ∈ ofLines ls ↔ span.IsBlock ls := by
  have hiff := mem_from?_iff [] hls (BlockState.at_outside none _) (follows_outside hls) span
  refine hiff.trans (and_iff_left_of_imp fun hspan => ?_)
  -- no block ends before the first line
  obtain ⟨l, hl, hnumber⟩ := hspan.stops
  have hlow := (hls.bounds hl).1
  rw [List.length_nil]
  omega

theorem exists_covers {l m : Line} (hls : Line.NumberedFrom n₀ ls) (hl : l ∈ ls)
    (hm : SinceSeparator ls (l.number + 1) m) (hopen : m.opener? ≠ none) :
    ∃ span ∈ ofLines ls, span.Covers l :=
  exists_from?_covers [] hls (BlockState.at_outside none _) (follows_outside hls) hl hm hopen

/-- A line that begins a block belongs to one, in which no line after the first
begins another. -/
theorem begins_iff {l : Line} (hls : Line.NumberedFrom n₀ ls) (hl : l ∈ ls) :
    l.Begins ls ↔ ∃ span ∈ ofLines ls, span.startLine = l.number := by
  constructor
  · intro hbegins
    obtain ⟨kind, hkind⟩ := Option.isSome_iff_exists.mp hbegins.1
    have hsince : SinceSeparator ls (l.number + 1) l :=
      .of_opener hls hl hkind (Nat.lt_succ_self _) fun s _ hgt hlt => by omega
    obtain ⟨span, hspan, hlow, hhigh⟩ := exists_covers hls hl hsince (by simp [hkind])
    refine ⟨span, hspan, ?_⟩
    by_cases heq : span.startLine = l.number
    · exact heq
    · have hgoesOn := ((mem_ofLines_iff hls span).mp hspan).goesOn
      exact absurd (.inr hbegins) (hgoesOn l hl (by omega) hhigh)
  · rintro ⟨span, hspan, hstart⟩
    obtain ⟨o, ho, hnumber, hbegins, -⟩ := ((mem_ofLines_iff hls span).mp hspan).begins
    rwa [hls.eq_of_number ho hl (hnumber.trans hstart)] at hbegins

theorem uncovered_iff {l : Line} (hls : Line.NumberedFrom n₀ ls) (hl : l ∈ ls) :
    (∀ span ∈ ofLines ls, ¬ span.Covers l) ↔
      l.isSeparator = true ∨ ∀ m, SinceSeparator ls (l.number + 1) m → m.opener? = none := by
  constructor
  · intro hnone
    refine .inr fun m hm => ?_
    cases hopen : m.opener? with
    | none => rfl
    | some kind =>
      obtain ⟨span, hspan, hin⟩ := exists_covers hls hl hm (by simp [hopen])
      exact absurd hin (hnone span hspan)
  · intro hfree span hspan hin
    obtain ⟨hlow, hhigh⟩ := hin
    obtain ⟨o, hsince, hnumber, hopen⟩ :=
      ((mem_ofLines_iff hls span).mp hspan).sinceSeparator hls (n := l.number + 1) (by omega) (by omega)
    rcases hfree with hsep | hnone
    · -- the opening line stands before the line, and no separator since
      have hafter := hsince.2.2 l hl hsep (Nat.lt_succ_self _)
      omega
    · rw [hnone o hsince] at hopen
      contradiction

/-- Over lines numbered one by one the machine finds the blocks that they form. -/
theorem segments_ofLines (hls : Line.NumberedFrom n₀ ls) : Segments ls (ofLines ls) where
  mem_iff := mem_ofLines_iff hls
  begins_iff _ hl := begins_iff hls hl
  ordered := pairwise_from? (BlockState.at_outside none n₀) hls
  uncovered_iff _ hl := uncovered_iff hls hl

/-- A producer block closes a consumer block and swallows what opens blocks, up to a
separator; the consumers after that close each other. -/
theorem segments_ofLines_mixed :
    let ls : List Line := [⟨7, "note".toList⟩, ⟨8, "CONSUMER a".toList⟩, ⟨9, "topic: t".toList⟩,
      ⟨10, "PRODUCER".toList⟩, ⟨11, "CONSUMER in the value".toList⟩, ⟨12, "PRODUCER".toList⟩,
      ⟨13, "###".toList⟩, ⟨14, "".toList⟩, ⟨15, "CONSUMER b".toList⟩, ⟨16, "CONSUMER c".toList⟩]
    Line.NumberedFrom 7 ls ∧
      ofLines ls = [⟨.consumer, 8, 9⟩, ⟨.producer, 10, 12⟩, ⟨.consumer, 15, 15⟩, ⟨.consumer, 16, 16⟩] ∧
      Segments ls (ofLines ls) := by
  intro ls
  have hls : Line.NumberedFrom 7 ls := by simp [ls, Line.NumberedFrom]
  exact ⟨hls, by decide, segments_ofLines hls⟩

end BlockSpan

end KafkaScript
