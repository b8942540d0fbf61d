import KafkaScript.Proofs.Pairing
import KafkaScript.Proofs.Text.Parts
import KafkaScript.Proofs.Text.Trim
import KafkaScript.Property

/-!
# Lines as properties

Reading the characters of a line one by one amounts to cutting the line at its
first assigner (`parse_eq`): the key is what stands before it less the spaces and
tabs in front, and the value is all that stands behind it. Every chunk of a
property is therefore a run of columns of its line (`holdsAt_chunkOf`).
-/

namespace KafkaScript

namespace Property

/-! ## The characters of a line one by one -/

/-- What is passed over in front of a key. -/
def isSkipped (c : Char) : Bool :=
  c == ' ' || c == '\t'

/-- Where a key begins in a text whose first character stands at column `i`. -/
def keyStart? (t : Text) (i : Nat) : Option Nat :=
  if t.all isSkipped then none else some (i + (t.takeWhile isSkipped).length)

theorem keyStart?_cons_of_skipped {c : Char} (h : isSkipped c = true) (t : Text) (i : Nat) :
    keyStart? (c :: t) i = keyStart? t (i + 1) := by
  unfold keyStart?
  rw [List.all_cons, h, Bool.true_and, List.takeWhile_cons_of_pos h, List.length_cons]
  split
  · rfl
  · rw [Nat.add_right_comm, Nat.add_assoc]

theorem keyStart?_cons_of_not_skipped {c : Char} (h : isSkipped c = false) (t : Text) (i : Nat) :
    keyStart? (c :: t) i = some i := by
  simp [keyStart?, h]

theorem isSkipped_iff {c : Char} : isSkipped c = true ↔ c = ' ' ∨ c = '\t' := by
  simp [isSkipped]

variable (content : Text) (line : Nat)

/-- Reads some characters of a line, each with its column. -/
def Progress.run (s : Progress) (cs : List (Char × Nat)) : Progress :=
  cs.foldl (fun s c => s.step content line c.1 c.2) s

/-- Once the value has begun, every character continues it. -/
theorem Progress.run_of_value (t : Text) (i start : Nat) (key : Option TextChunk)
    (assigner : Option Nat) :
    Progress.run content line ⟨some start, true, key, assigner⟩ (t.zipIdx i) =
      ⟨some start, true, key, assigner⟩ := by
  induction t generalizing i with
  | nil => rfl
  | cons c t ih => simpa [Progress.run, Progress.step] using ih (i + 1)

/-- The first assigner ends the key. -/
theorem Progress.step_assigner (start : Option Nat) (i : Nat) :
    Progress.step content line ⟨start, false, none, none⟩ assignerMark i =
      ⟨some (i + 1), true, start.map (chunkOf content line · i .propertyKey), some i⟩ := by
  simp [Progress.step, assignerMark]

/-- A key begins at the first character that is not passed over. -/
theorem Progress.step_key {c : Char} (h : c ≠ assignerMark) (start : Option Nat) (i : Nat) :
    Progress.step content line ⟨start, false, none, none⟩ c i =
      ⟨start <|> if isSkipped c then none else some i, false, none, none⟩ := by
  cases start with
  | none =>
    by_cases hc : isSkipped c = true
    · simp [Progress.step, hc, isSkipped_iff.mp hc]
    · have hc' : ¬ (c = ' ' ∨ c = '\t') := fun hor => hc (isSkipped_iff.mpr hor)
      simp [Progress.step, hc, hc', h]
  | some start => simp [Progress.step, h]

theorem keyStart?_cons (start : Option Nat) (c : Char) (t : Text) (i : Nat) :
    ((start <|> if isSkipped c then none else some i) <|> keyStart? t (i + 1)) =
      (start <|> keyStart? (c :: t) i) := by
  cases start with
  | some start => rfl
  | none =>
    by_cases hc : isSkipped c = true
    · rw [if_pos hc, keyStart?_cons_of_skipped hc]
      rfl
    · rw [if_neg hc, keyStart?_cons_of_not_skipped (by simpa using hc)]
      rfl

/-- Before the value, the first assigner decides where the key ends, and the
first character that is not passed over where it begins. -/
theorem Progress.run_of_key (t : Text) (i : Nat) (start : Option Nat) :
    Progress.run content line ⟨start, false, none, none⟩ (t.zipIdx i) =
      match t.splitFirst assignerMark with
      | none => ⟨start <|> keyStart? t i, false, none, none⟩
      | some (before, _) =>
        ⟨some (i + before.length + 1), true,
          (start <|> keyStart? before i).map
            (chunkOf content line · (i + before.length) .propertyKey),
          some (i + before.length)⟩ := by
  induction t generalizing i start with
  | nil => cases start <;> rfl
  | cons c t ih =>
    rw [Progress.run, List.zipIdx_cons, List.foldl_cons]
    by_cases hc : c = assignerMark
    · -- from here on everything belongs to the value
      subst hc
      rw [Progress.step_assigner]
      show Progress.run content line _ _ = _
      rw [Progress.run_of_value, Text.splitFirst, if_pos rfl]
      cases start <;> simp [keyStart?]
    · rw [Progress.step_key content line hc]
      show Progress.run content line _ _ = _
      rw [ih, Text.splitFirst, if_neg hc]
      cases Text.splitFirst assignerMark t with
      | none => simp only [Option.map_none, keyStart?_cons]
      | some cut =>
        have hlen : i + 1 + cut.1.length = i + (c :: cut.1).length := by
          rw [List.length_cons]
          omega
        simp only [Option.map_some, keyStart?_cons, hlen]

/-! ## Cutting at the assigner -/

/-- The column of the assigner. -/
def assignerOf? (content : Text) : Option Nat :=
  (content.splitFirst assignerMark).map (·.1.length)

/-- Where the key ends: at the assigner, or with the line. -/
def keyStop (content : Text) : Nat :=
  (assignerOf? content).getD content.length

/-- The key of a line, if anything but what is passed over stands where it may. -/
def keyOf? : Option TextChunk :=
  (keyStart? (content.take (keyStop content)) 0).map
    (chunkOf content line · (keyStop content) .propertyKey)

/-- The value of a line: everything behind the assigner. -/
def valueOf? : Option Chunk :=
  (assignerOf? content).map fun i =>
    valueOf (keyOf? content line) (chunkOf content line (i + 1) content.length .propertyValue)

/-- Reading a line as a property is cutting it at its first assigner. -/
theorem parse_eq : parse content line = build (keyOf? content line) (assignerOf? content)
    (valueOf? content line) (Range.ofWidth ⟨line, 0⟩ content.length) := by
  have hrun : parse content line = (Progress.run content line .empty content.zipIdx).finish
      content line := rfl
  rw [hrun, Progress.empty, Progress.run_of_key]
  unfold valueOf? keyOf? keyStop assignerOf?
  cases hcut : Text.splitFirst assignerMark content with
  | none =>
    simp only [Option.map_none, Option.getD_none, List.take_length, Progress.finish]
    cases keyStart? content 0 with
    | none => rfl
    | some start => rfl
  | some cut =>
    obtain ⟨before, behind⟩ := cut
    have hbefore : content.take before.length = before := by
      rw [(Text.eq_append_of_splitFirst hcut).1, List.take_left]
    simp only [Option.map_some, Option.getD_some, Nat.zero_add, hbefore, Progress.finish]
    cases keyStart? before 0 with
    | none => rfl
    | some start => rfl

/-! ## Columns -/

theorem keyStop_le : keyStop content ≤ content.length := by
  unfold keyStop assignerOf?
  cases hcut : Text.splitFirst assignerMark content with
  | none => simp
  | some cut =>
    have := Text.length_of_splitFirst hcut
    simp only [Option.map_some, Option.getD_some]
    omega

variable {content line}

/-- The key runs up to where it must end. -/
theorem eq_chunkOf_of_keyOf? {k : TextChunk} (h : keyOf? content line = some k) :
    ∃ start ≤ keyStop content, k = chunkOf content line start (keyStop content) .propertyKey := by
  obtain ⟨start, hstart, rfl⟩ := Option.map_eq_some_iff.mp h
  refine ⟨start, ?_, rfl⟩
  unfold keyStart? at hstart
  split at hstart
  · contradiction
  · have hle := (List.takeWhile_prefix isSkipped (l := content.take (keyStop content))).length_le
    rw [List.length_take] at hle
    simp only [Option.some.injEq] at hstart
    omega

@[simp] theorem text_valueOf (key : Option TextChunk) (c : TextChunk) : (valueOf key c).text = c := by
  unfold valueOf
  split <;> rfl

/-- The value runs from behind the assigner, where the key ends, to the end of
the line. -/
theorem text_of_valueOf? {v : Chunk} (h : valueOf? content line = some v) :
    keyStop content < content.length ∧
      v.text = chunkOf content line (keyStop content + 1) content.length .propertyValue := by
  obtain ⟨i, hi, rfl⟩ := Option.map_eq_some_iff.mp h
  obtain ⟨cut, hcut, rfl⟩ := Option.map_eq_some_iff.mp hi
  have hlen := Text.length_of_splitFirst hcut
  have hstop : keyStop content = cut.1.length := by simp [keyStop, hi]
  rw [hstop, text_valueOf]
  exact ⟨by omega, rfl⟩

@[simp] theorem key_parse : (parse content line).key = keyOf? content line := by
  rw [parse_eq]
  rfl

@[simp] theorem value_parse : (parse content line).value = valueOf? content line := by
  rw [parse_eq]
  rfl

/-- The characters of a line from one column up to another stand there. -/
theorem holdsAt_chunkOf {t : Text} {n : Nat} {l : RawLine}
    (hl : (RawLine.ofText t)[n]? = some l) {start stop : Nat} (h : start ≤ stop)
    (hstop : stop ≤ l.content.length) (kind : ChunkKind) :
    t.HoldsAt (chunkOf l.content n start stop kind).range
      (chunkOf l.content n start stop kind).content := by
  have := Text.holdsAt_line hl h hstop
  rwa [List.drop_take] at this

end Property

end KafkaScript
