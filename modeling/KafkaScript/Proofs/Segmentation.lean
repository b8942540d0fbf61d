import KafkaScript.Block.Span

/-!
# The lines of each block

The machine that groups lines into blocks, run over lines that are numbered one
by one. `BlockState.At` is what it preserves: whatever is open was opened on a
line before the one that comes next. From this follow, for all blocks of a run,

* that a block begins on a line that opens it and ends no earlier and on a line
  that was read (`spans_from?`);
* that a block ends before the next one begins (`pairwise_from?`);
* that lines after which nothing is carried over can be read on their own
  (`from?_append`), and that it does not matter at which number the lines begin
  (`from?_down`).
-/

namespace KafkaScript

/-- The lines carry the numbers from `n` on. -/
def Line.NumberedFrom : Nat → List Line → Prop
  | _, [] => True
  | n, l :: ls => l.number = n ∧ NumberedFrom (n + 1) ls

namespace Line.NumberedFrom

theorem append {n : Nat} {la lb : List Line} :
    NumberedFrom n (la ++ lb) ↔ NumberedFrom n la ∧ NumberedFrom (n + la.length) lb := by
  induction la generalizing n with
  | nil => simp [NumberedFrom]
  | cons l la ih =>
    rw [List.cons_append, NumberedFrom, NumberedFrom, ih, List.length_cons, and_assoc,
      Nat.add_right_comm, Nat.add_assoc]

theorem getElem? {n i : Nat} {ls : List Line} {l : Line} (h : NumberedFrom n ls)
    (hl : ls[i]? = some l) : l.number = n + i := by
  induction ls generalizing n i with
  | nil => simp at hl
  | cons m ls ih =>
    cases i with
    | zero =>
      obtain rfl : m = l := by simpa using hl
      exact h.1
    | succ i =>
      rw [ih h.2 (by simpa using hl)]
      omega

theorem pairwise {n : Nat} {ls : List Line} (h : NumberedFrom n ls) :
    ls.Pairwise fun l m => l.number < m.number := by
  induction ls generalizing n with
  | nil => exact .nil
  | cons l ls ih =>
    obtain ⟨rfl, hls⟩ := h
    refine .cons ?_ (ih hls)
    intro m hm
    obtain ⟨i, hi⟩ := List.mem_iff_getElem?.mp hm
    have hnumber := hls.getElem? hi
    omega

theorem getElem?_of_mem {n : Nat} {ls : List Line} {l : Line}
    (h : NumberedFrom n ls) (hl : l ∈ ls) : ls[l.number - n]? = some l := by
  obtain ⟨i, hi⟩ := List.mem_iff_getElem?.mp hl
  have hnumber := h.getElem? hi
  rw [hnumber, Nat.add_sub_cancel_left, hi]

theorem of_prefix {n : Nat} {la lb : List Line} (h : NumberedFrom n lb)
    (hp : la <+: lb) : NumberedFrom n la := by
  obtain ⟨lc, rfl⟩ := hp
  exact (append.mp h).1

theorem drop {n : Nat} {ls : List Line} (h : NumberedFrom n ls) (k : Nat)
    (hk : k ≤ ls.length) : NumberedFrom (n + k) (ls.drop k) := by
  rw [← List.take_append_drop k ls, append, List.length_take, Nat.min_eq_left hk] at h
  exact h.2

end Line.NumberedFrom

/-- The same line `n` lines further down. -/
def Line.down (n : Nat) (l : Line) : Line :=
  { l with number := l.number + n }

namespace BlockState

/-- The block that ends before line `n` if it goes no further. -/
def closedBefore? (s : BlockState) (n : Nat) : Option BlockSpan :=
  match s with
  | outside => none
  | inside kind startLine => some ⟨kind, startLine, max (n - 1) startLine⟩

/-- Whether a line belongs to what is already open. -/
def keeps (s : BlockState) (l : Line) : Bool :=
  match s with
  | outside => false
  | inside kind _ => !endsAt kind l

/-- A line belongs to what is open, or that ends before it. -/
theorem step_eq (s : BlockState) (l : Line) :
    s.step l = if s.keeps l then (s, none) else (after l, s.closedBefore? l.number) := by
  cases s with
  | outside => rfl
  | inside kind startLine =>
    by_cases hends : endsAt kind l = true
    · simp [step, keeps, closedBefore?, hends]
    · simp [step, keeps, hends]

/-- What is carried over the gap before line `n`, where `last` is the line read
before: a block was opened before the gap. -/
def At (s : BlockState) (last : Option Nat) (n : Nat) : Prop :=
  ∀ kind startLine, s = inside kind startLine → startLine < n ∧ last = some (n - 1)

theorem at_outside (last : Option Nat) (n : Nat) : At outside last n := by
  intro kind startLine h
  contradiction

theorem after_eq_inside {l : Line} {kind : BlockKind} {startLine : Nat}
    (h : after l = inside kind startLine) : l.number = startLine ∧ l.opener? = some kind := by
  unfold after at h
  cases hopen : l.opener? with
  | none => simp [hopen] at h
  | some k =>
    rw [hopen] at h
    obtain ⟨rfl, rfl⟩ : k = kind ∧ l.number = startLine := by simpa using h
    exact ⟨rfl, rfl⟩

/-- What a line keeps open was opened before the next line as well. -/
theorem At.keep {s : BlockState} {last : Option Nat} {n : Nat} (h : s.At last n) :
    s.At (some n) (n + 1) := by
  intro kind startLine hinside
  have hopened := (h kind startLine hinside).1
  exact ⟨by omega, rfl⟩

/-- What a line opens was opened before the next line. -/
theorem at_after (l : Line) : (after l).At (some l.number) (l.number + 1) := by
  intro kind startLine hinside
  have hnumber := (after_eq_inside hinside).1
  exact ⟨by omega, rfl⟩

/-- The end of the text closes what is open as a line would. -/
theorem At.finish {s : BlockState} {last : Option Nat} {n : Nat} (h : s.At last n) :
    last.bind s.finish = s.closedBefore? n := by
  cases s with
  | outside => cases last <;> rfl
  | inside kind startLine =>
    rw [(h kind startLine rfl).2]
    rfl

/-- What ends before line `n` was open, and ends right before that line. -/
theorem At.closedBefore? {s : BlockState} {last : Option Nat} {n : Nat} (h : s.At last n)
    {span : BlockSpan} (hspan : s.closedBefore? n = some span) :
    s = inside span.kind span.startLine ∧ span.startLine ≤ span.stopLine ∧
      span.stopLine + 1 = n := by
  cases s with
  | outside => contradiction
  | inside kind startLine =>
    have hopened := (h kind startLine rfl).1
    simp only [BlockState.closedBefore?, Option.some.injEq] at hspan
    subst hspan
    refine ⟨rfl, ?_, ?_⟩ <;> show _ <;> simp only <;> omega

/-- The state after some lines. -/
def run (s : BlockState) (ls : List Line) : BlockState :=
  ls.foldl (fun s l => (s.step l).1) s

theorem isSeparator_of_keeps {s : BlockState} {l : Line} (h : s.keeps l = true) :
    l.isSeparator = false := by
  cases s with
  | outside => contradiction
  | inside kind startLine =>
    simp only [keeps, endsAt, Bool.not_eq_true', Bool.or_eq_false_iff] at h
    exact h.1

/-- A producer block that is open at the end was open from the start or opened
by some line, and no separator followed. -/
theorem run_eq_producer {s : BlockState} {ls : List Line} {startLine : Nat}
    (h : s.run ls = inside .producer startLine) :
    (s = inside .producer startLine ∧ ∀ m ∈ ls, m.isSeparator = false) ∨
      ∃ xs l ys, ls = xs ++ l :: ys ∧ l.opener? = some .producer ∧
        ∀ m ∈ ys, m.isSeparator = false := by
  induction ls generalizing s with
  | nil => exact .inl ⟨h, by simp⟩
  | cons l ls ih =>
    rcases ih (s := (s.step l).1) h with ⟨hstep, hsep⟩ | ⟨xs, m, ys, rfl, hopen, hsep⟩
    · -- the first line kept the block open or opened it
      rw [step_eq] at hstep
      by_cases hkeeps : s.keeps l = true
      · rw [if_pos hkeeps] at hstep
        exact .inl ⟨hstep, List.forall_mem_cons.mpr ⟨isSeparator_of_keeps hkeeps, hsep⟩⟩
      · rw [if_neg hkeeps] at hstep
        exact .inr ⟨[], l, ls, rfl, (after_eq_inside hstep).2, hsep⟩
    · exact .inr ⟨l :: xs, m, ys, rfl, hopen, hsep⟩

/-- Outside of producer blocks every line that opens a block begins anew, and a
separator does so anywhere. -/
theorem keeps_eq_false {s : BlockState} {l : Line}
    (h : l.isSeparator = true ∨
      l.opener?.isSome = true ∧ ∀ startLine, s ≠ inside .producer startLine) :
    s.keeps l = false := by
  cases s with
  | outside => rfl
  | inside kind startLine =>
    rcases h with hsep | ⟨hopen, hs⟩
    · simp [keeps, endsAt, hsep]
    · cases kind with
      | producer => exact absurd rfl (hs startLine)
      | consumer => simp [keeps, endsAt, hopen]

/-! ## Further down -/

/-- The same state with everything `n` lines further down. -/
def down (n : Nat) : BlockState → BlockState
  | outside => outside
  | inside kind startLine => inside kind (startLine + n)

theorem after_down (n : Nat) (l : Line) : after (l.down n) = (after l).down n := by
  have hopen : (l.down n).opener? = l.opener? := rfl
  unfold after
  rw [hopen]
  cases l.opener? <;> rfl

theorem keeps_down (n : Nat) (s : BlockState) (l : Line) : (s.down n).keeps (l.down n) = s.keeps l := by
  cases s <;> rfl

end BlockState

/-- The same block `n` lines further down. -/
def BlockSpan.down (n : Nat) (span : BlockSpan) : BlockSpan :=
  ⟨span.kind, span.startLine + n, span.stopLine + n⟩

namespace BlockState

theorem closedBefore?_down (n k : Nat) (s : BlockState) :
    (s.down n).closedBefore? (k + n) = (s.closedBefore? k).map (BlockSpan.down n) := by
  cases s with
  | outside => rfl
  | inside kind startLine =>
    have hstop : max (k + n - 1) (startLine + n) = max (k - 1) startLine + n := by omega
    simp [closedBefore?, down, BlockSpan.down, hstop]

theorem finish_down (n k : Nat) (s : BlockState) :
    (s.down n).finish (k + n) = (s.finish k).map (BlockSpan.down n) := by
  cases s with
  | outside => rfl
  | inside kind startLine =>
    have hstop : max (k + n) (startLine + n) = max k startLine + n := by omega
    simp [finish, down, BlockSpan.down, hstop]

end BlockState

namespace BlockSpan

open BlockState (inside outside)

theorem from?_cons (s : BlockState) (last : Option Nat) (l : Line) (ls : List Line) :
    from? s last (l :: ls) = if s.keeps l then from? s (some l.number) ls
      else (s.closedBefore? l.number).toList ++ from? (.after l) (some l.number) ls := by
  rw [from?, BlockState.step_eq]
  split <;> rfl

/-- A block was open before the lines or is opened by one of them, and it ends on
one of them or right before them. -/
theorem spans_from? {s : BlockState} {last : Option Nat} {n : Nat} {ls : List Line}
    (hs : s.At last n) (hls : Line.NumberedFrom n ls) :
    ∀ span ∈ from? s last ls,
      (s = inside span.kind span.startLine ∧ span.startLine < n ∨
        ∃ l ∈ ls, l.number = span.startLine ∧ n ≤ l.number ∧ l.opener? = some span.kind) ∧
      span.startLine ≤ span.stopLine ∧ n ≤ span.stopLine + 1 ∧ span.stopLine < n + ls.length := by
  induction ls generalizing s last n with
  | nil =>
    intro span hspan
    rw [from?, hs.finish, Option.mem_toList] at hspan
    obtain ⟨hinside, hle, hstop⟩ := hs.closedBefore? hspan
    have hopened := (hs _ _ hinside).1
    exact ⟨.inl ⟨hinside, hopened⟩, hle, by omega, by simp only [List.length_nil]; omega⟩
  | cons l ls ih =>
    obtain ⟨rfl, hls⟩ := hls
    intro span hspan
    rw [List.length_cons]
    rw [from?_cons] at hspan
    by_cases hkeeps : s.keeps l = true
    · rw [if_pos hkeeps] at hspan
      obtain ⟨hbegin, hle, hlow, hstop⟩ := ih hs.keep hls span hspan
      refine ⟨?_, hle, by omega, by omega⟩
      rcases hbegin with ⟨hinside, -⟩ | ⟨m, hm, hnumber, hlow, hopen⟩
      · exact .inl ⟨hinside, (hs _ _ hinside).1⟩
      · exact .inr ⟨m, List.mem_cons_of_mem l hm, hnumber, by omega, hopen⟩
    · rw [if_neg hkeeps] at hspan
      -- the block that the line ends, then those of the state after it
      rcases List.mem_append.mp hspan with hspan | hspan
      · obtain ⟨hinside, hle, hstop⟩ := hs.closedBefore? (Option.mem_toList.mp hspan)
        exact ⟨.inl ⟨hinside, (hs _ _ hinside).1⟩, hle, by omega, by omega⟩
      · obtain ⟨hbegin, hle, hlow, hstop⟩ := ih (BlockState.at_after l) hls span hspan
        refine ⟨.inr ?_, hle, by omega, by omega⟩
        rcases hbegin with ⟨hinside, -⟩ | ⟨m, hm, hnumber, hlow, hopen⟩
        · obtain ⟨hnumber, hopen⟩ := BlockState.after_eq_inside hinside
          exact ⟨l, List.mem_cons_self, hnumber, by omega, hopen⟩
        · exact ⟨m, List.mem_cons_of_mem l hm, hnumber, by omega, hopen⟩

/-- Each block ends before the next one begins. -/
theorem pairwise_from? {s : BlockState} {last : Option Nat} {n : Nat} {ls : List Line}
    (hs : s.At last n) (hls : Line.NumberedFrom n ls) :
    (from? s last ls).Pairwise fun a b => a.stopLine < b.startLine := by
  induction ls generalizing s last n with
  | nil =>
    rw [from?]
    cases last.bind s.finish <;> simp
  | cons l ls ih =>
    obtain ⟨rfl, hls⟩ := hls
    rw [from?_cons]
    by_cases hkeeps : s.keeps l = true
    · rw [if_pos hkeeps]
      exact ih hs.keep hls
    · rw [if_neg hkeeps, List.pairwise_append]
      refine ⟨?_, ih (BlockState.at_after l) hls, ?_⟩
      · cases s.closedBefore? l.number <;> simp
      · -- the block that ends before the line comes before all that begin there or later
        intro a ha b hb
        obtain ⟨-, -, hstop⟩ := hs.closedBefore? (Option.mem_toList.mp ha)
        rcases (spans_from? (BlockState.at_after l) hls b hb).1 with ⟨hinside, -⟩ | ⟨m, -, hm, hlow, -⟩
        · have hnumber := (BlockState.after_eq_inside hinside).1
          omega
        · omega

/-- Lines that begin with one that belongs to nothing open can be read on their
own. -/
theorem from?_append {s : BlockState} {last : Option Nat} {n : Nat} {la lb : List Line} {l : Line}
    (hs : s.At last n) (hla : Line.NumberedFrom n la) (hl : l.number = n + la.length)
    (hends : (s.run la).keeps l = false) :
    from? s last (la ++ l :: lb) = from? s last la ++ from? outside none (l :: lb) := by
  induction la generalizing s last n with
  | nil =>
    -- the line ends what is open, as the end of the text does on the other side
    have hends : ¬ s.keeps l = true := Bool.eq_false_iff.mp hends
    obtain rfl : l.number = n := hl
    rw [List.nil_append, from?_cons, if_neg hends, from?, hs.finish, from?_cons]
    rfl
  | cons m la ih =>
    obtain ⟨rfl, hla⟩ := hla
    rw [List.length_cons] at hl
    have hrun : s.run (m :: la) = (s.step m).1.run la := rfl
    rw [hrun, BlockState.step_eq] at hends
    rw [List.cons_append, from?_cons, from?_cons s last m la]
    by_cases hkeeps : s.keeps m = true
    · rw [if_pos hkeeps] at hends ⊢
      rw [if_pos hkeeps]
      exact ih hs.keep hla (by omega) hends
    · rw [if_neg hkeeps] at hends ⊢
      rw [if_neg hkeeps, ih (BlockState.at_after m) hla (by omega) hends, List.append_assoc]

/-- Blocks of lines further down are the same blocks further down. -/
theorem from?_down (n : Nat) (s : BlockState) (last : Option Nat) (ls : List Line) :
    from? (s.down n) (last.map (· + n)) (ls.map (Line.down n)) =
      (from? s last ls).map (down n) := by
  induction ls generalizing s last with
  | nil =>
    cases last with
    | none => rfl
    | some k =>
      show ((s.down n).finish (k + n)).toList = (s.finish k).toList.map (down n)
      rw [BlockState.finish_down]
      cases s.finish k <;> rfl
  | cons l ls ih =>
    rw [List.map_cons, from?_cons, from?_cons, BlockState.keeps_down]
    by_cases hkeeps : s.keeps l = true
    · rw [if_pos hkeeps, if_pos hkeeps]
      exact ih s (some l.number)
    · rw [if_neg hkeeps, if_neg hkeeps, List.map_append, ← ih (.after l) (some l.number),
        BlockState.after_down]
      congr 1
      show ((s.down n).closedBefore? (l.number + n)).toList = _
      rw [BlockState.closedBefore?_down]
      cases s.closedBefore? l.number <;> rfl

/-! ## The blocks of all lines -/

variable {ls : List Line}

/-- Each block begins on a line that opens it, and all its lines are there. -/
theorem spans_ofLines (h : Line.NumberedFrom 0 ls) : ∀ span ∈ ofLines ls,
    (∃ l ∈ ls, l.number = span.startLine ∧ l.opener? = some span.kind) ∧
      span.startLine ≤ span.stopLine ∧ span.stopLine < ls.length := by
  intro span hspan
  obtain ⟨hbegin, hle, -, hstop⟩ := spans_from? (BlockState.at_outside none 0) h span hspan
  rcases hbegin with ⟨hinside, -⟩ | ⟨l, hl, hnumber, -, hopen⟩
  · contradiction
  · exact ⟨⟨l, hl, hnumber, hopen⟩, hle, by omega⟩

theorem pairwise_ofLines (h : Line.NumberedFrom 0 ls) :
    (ofLines ls).Pairwise fun a b => a.stopLine < b.startLine :=
  pairwise_from? (BlockState.at_outside none 0) h

/-- Lines that begin with a separator form their own blocks after any others, and
so do lines that begin by opening a block unless a producer block is open. -/
theorem ofLines_append {la lb : List Line} {l : Line} (h : Line.NumberedFrom 0 (la ++ l :: lb))
    (hends : l.isSeparator = true ∨ l.opener?.isSome = true ∧
      ∀ m ∈ la, m.opener? = some .producer →
        ∃ m' ∈ la, m.number < m'.number ∧ m'.isSeparator = true) :
    ofLines (la ++ l :: lb) = ofLines la ++ ofLines (l :: lb) := by
  obtain ⟨hla, hl, -⟩ := Line.NumberedFrom.append.mp h
  refine from?_append (BlockState.at_outside none 0) hla hl (BlockState.keeps_eq_false ?_)
  refine hends.imp_right fun ⟨hopen, hsep⟩ => ⟨hopen, fun startLine hrun => ?_⟩
  rcases BlockState.run_eq_producer hrun with ⟨hout, -⟩ | ⟨xs, m, ys, rfl, hm, hys⟩
  · contradiction
  · -- the separator that follows the opening line is among those that leave it open
    obtain ⟨m', hm', hlt, hsep'⟩ := hsep m (by simp) hm
    have horder := List.pairwise_append.mp hla.pairwise
    rcases List.mem_append.mp hm' with hm' | hm'
    · have hbefore := horder.2.2 m' hm' m List.mem_cons_self
      omega
    · rcases List.mem_cons.mp hm' with rfl | hm'
      · exact absurd hlt (Nat.lt_irrefl _)
      · rw [hys m' hm'] at hsep'
        contradiction

theorem ofLines_down (n : Nat) (ls : List Line) :
    ofLines (ls.map (Line.down n)) = (ofLines ls).map (down n) :=
  from?_down n outside none ls

end BlockSpan

end KafkaScript
