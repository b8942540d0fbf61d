import KafkaScript.Proofs.Marking
import KafkaScript.Proofs.Property

/-!
# How a line is divided

A property keeps all of its line: the indent, the key, the assigner and the value, one
after the other, are the line again (`Property.Divides.whole`). The assigner is the
first colon wherever it stands, and the key all before it from the first character
that is neither a space nor a tab.
-/

namespace KafkaScript

namespace Text

/-- The spaces and tabs that a text begins with. -/
def indent (t : Text) : Text :=
  t.takeWhile fun c => c == ' ' || c == '\t'

end Text

namespace Property

/-- What stands before the first assigner of a line, or the whole line without one. -/
def beforeAssigner (content : Text) : Text :=
  content.take ((content.idxOf? assignerMark).getD content.length)

/-- The property is what its line is divided into. -/
structure Divides (content : Text) (line : Nat) (p : Property) : Prop where
  assigner : p.assigner = content.idxOf? assignerMark
  value_isSome : p.value.isSome = p.assigner.isSome
  value : ∀ v ∈ p.value, ∀ c ∈ p.assigner,
    v.text = ⟨content.drop (c + 1), ⟨⟨line, c + 1⟩, ⟨line, content.length⟩⟩, .propertyValue⟩
  /-- A value is a template under the key `key`, with blanks around it or not. -/
  dynamic : ∀ v ∈ p.value, v.template?.isSome = true ↔ p.name? = some templateName
  key_isSome : p.key.isSome = true ↔ ∃ c ∈ beforeAssigner content, c ≠ ' ' ∧ c ≠ '\t'
  key : ∀ k ∈ p.key, beforeAssigner content = content.indent ++ k.content ∧
    k = ⟨k.content, ⟨⟨line, content.indent.length⟩, ⟨line, p.assigner.getD content.length⟩⟩,
      .propertyKey⟩
  /-- No character of the line is lost. -/
  whole : content = content.indent ++ (p.key.map (·.content)).getD [] ++
    (p.value.map fun v => assignerMark :: v.text.content).getD []
  range : p.range = match p.key, p.value with
    | some k, some v => ⟨k.range.start, v.text.range.stop⟩
    | some k, none => k.range
    | none, some v => v.text.range
    | none, none => ⟨⟨line, 0⟩, ⟨line, content.length⟩⟩

variable {content : Text} {line : Nat}

theorem assignerOf?_eq (content : Text) : assignerOf? content = content.idxOf? assignerMark := by
  unfold assignerOf?
  induction content with
  | nil => rfl
  | cons c t ih =>
    rw [Text.splitFirst, List.idxOf?_cons]
    by_cases hc : c = assignerMark
    · simp [hc]
    · rw [if_neg hc, if_neg (by simpa using hc), ← ih, Option.map_map, Option.map_map]
      rfl

theorem take_keyStop (content : Text) : content.take (keyStop content) = beforeAssigner content := by
  rw [beforeAssigner, keyStop, assignerOf?_eq]

/-- Behind what stands before the assigner comes the assigner, if there is one. -/
theorem drop_keyStop (content : Text) : content.drop (keyStop content) =
    ((assignerOf? content).map fun c => assignerMark :: content.drop (c + 1)).getD [] := by
  unfold keyStop assignerOf?
  cases hcut : Text.splitFirst assignerMark content with
  | none => simp
  | some cut =>
    obtain ⟨hcontent, -⟩ := Text.eq_append_of_splitFirst hcut
    simp only [Option.map_some, Option.getD_some]
    rw [hcontent, List.drop_left, List.drop_length_add_append]
    rfl

/-- The indent ends before the assigner. -/
theorem indent_eq (content : Text) :
    content.indent = (beforeAssigner content).takeWhile isSkipped := by
  have hcut : beforeAssigner content ++ content.drop (keyStop content) = content := by
    rw [← take_keyStop, List.take_append_drop]
  have hnone : (content.drop (keyStop content)).takeWhile isSkipped = [] := by
    rw [drop_keyStop]
    cases assignerOf? content with
    | none => rfl
    | some c => rfl
  have hindent : content.indent = content.takeWhile isSkipped := rfl
  rw [hindent]
  conv_lhs => rw [← hcut]
  rw [List.takeWhile_append, hnone, List.append_nil]
  split
  · next hlength => exact ((List.takeWhile_prefix isSkipped).eq_of_length hlength).symm
  · rfl

/-- Without a key only the indent stands before the assigner. -/
theorem beforeAssigner_of_keyOf?_none (h : keyOf? content line = none) :
    beforeAssigner content = content.indent := by
  rw [keyOf?, Option.map_eq_none_iff, take_keyStop, keyStart?, ite_eq_left_iff] at h
  have hall : (beforeAssigner content).all isSkipped = true := by
    by_contra hnot
    exact Option.some_ne_none _ (h hnot)
  rw [indent_eq, List.takeWhile_eq_self_iff.mpr (by simpa using hall)]

/-- A key is all between the indent and the assigner. -/
theorem beforeAssigner_of_keyOf? {k : TextChunk} (h : keyOf? content line = some k) :
    beforeAssigner content = content.indent ++ k.content ∧
      k = ⟨k.content, ⟨⟨line, content.indent.length⟩, ⟨line, keyStop content⟩⟩, .propertyKey⟩ := by
  obtain ⟨start, hstart, rfl⟩ := Option.map_eq_some_iff.mp h
  obtain rfl : content.indent.length = start := by
    rw [take_keyStop, keyStart?, ← indent_eq, Nat.zero_add] at hstart
    split at hstart
    · contradiction
    · exact Option.some.inj hstart
  refine ⟨?_, rfl⟩
  have hprefix : content.indent <+: beforeAssigner content := by
    rw [indent_eq]
    exact List.takeWhile_prefix isSkipped
  show beforeAssigner content = content.indent ++
    (content.drop content.indent.length).take (keyStop content - content.indent.length)
  rw [← List.drop_take, take_keyStop]
  conv_lhs => rw [← List.take_append_drop content.indent.length (beforeAssigner content)]
  rw [← List.prefix_iff_eq_take.mp hprefix]

theorem isSome_keyOf? : (keyOf? content line).isSome = true ↔
    ∃ c ∈ beforeAssigner content, c ≠ ' ' ∧ c ≠ '\t' := by
  rw [keyOf?, Option.isSome_map, take_keyStop, keyStart?]
  split
  · next hall =>
    simp only [Option.isSome_none, Bool.false_eq_true, false_iff]
    rintro ⟨c, hc, hspace, htab⟩
    have hskipped := List.all_eq_true.mp hall c hc
    rw [isSkipped_iff] at hskipped
    exact hskipped.elim hspace htab
  · next hnot =>
    simp only [Option.isSome_some, true_iff]
    rw [List.all_eq_true] at hnot
    push Not at hnot
    obtain ⟨c, hc, hskipped⟩ := hnot
    rw [ne_eq, isSkipped_iff, not_or] at hskipped
    exact ⟨c, hc, hskipped⟩

theorem chunkOf_length (content : Text) (line start : Nat) (kind : ChunkKind) :
    chunkOf content line start content.length kind =
      ⟨content.drop start, ⟨⟨line, start⟩, ⟨line, content.length⟩⟩, kind⟩ := by
  rw [chunkOf, List.take_of_length_le (by rw [List.length_drop])]

/-- The parts of a line in order make up the line. -/
theorem whole_parse : content = content.indent ++ ((keyOf? content line).map (·.content)).getD [] ++
    ((valueOf? content line).map fun v => assignerMark :: v.text.content).getD [] := by
  have hkey : beforeAssigner content =
      content.indent ++ ((keyOf? content line).map (·.content)).getD [] := by
    cases hk : keyOf? content line with
    | none => simpa using beforeAssigner_of_keyOf?_none hk
    | some k => exact (beforeAssigner_of_keyOf? hk).1
  have hvalue : content.drop (keyStop content) =
      ((valueOf? content line).map fun v => assignerMark :: v.text.content).getD [] := by
    rw [drop_keyStop, valueOf?, Option.map_map]
    simp only [Function.comp_def, text_valueOf, chunkOf_length]
  rw [← hkey, ← hvalue, ← take_keyStop, List.take_append_drop]

/-- Whether a value is a template is decided by the name. -/
theorem isSome_template?_valueOf (key : Option TextChunk) (c : TextChunk) :
    (valueOf key c).template?.isSome = true ↔ key.map (·.content.trim) = some templateName := by
  unfold valueOf
  cases key with
  | none => simp [Chunk.template?]
  | some k =>
    by_cases hname : k.content.trim = templateName
    · simp [hname, Chunk.template?]
    · simp [hname, Chunk.template?]

theorem range_build (key : Option TextChunk) (assigner : Option Nat) (value : Option Chunk)
    (line : Range) : (build key assigner value line).range = match key, value with
      | some k, some v => ⟨k.range.start, v.text.range.stop⟩
      | some k, none => k.range
      | none, some v => v.text.range
      | none, none => line := by
  cases key <;> cases value <;> rfl

/-- What is read from a line is what it is divided into. -/
theorem divides_parse (content : Text) (line : Nat) :
    (parse content line).Divides content line := by
  have hassigner : (parse content line).assigner = assignerOf? content := by
    rw [parse_eq]
    rfl
  refine ⟨?_, ?_, ?_, ?_, ?_, ?_, ?_, ?_⟩
  · rw [hassigner, assignerOf?_eq]
  · rw [value_parse, hassigner, valueOf?, Option.isSome_map]
  · intro v hv c hc
    rw [value_parse, valueOf?] at hv
    rw [hassigner] at hc
    rw [Option.mem_def.mp hc, Option.map_some] at hv
    obtain rfl := Option.some.inj hv
    rw [text_valueOf, chunkOf_length]
  · intro v hv
    rw [value_parse, valueOf?] at hv
    obtain ⟨c, -, rfl⟩ := Option.map_eq_some_iff.mp hv
    rw [isSome_template?_valueOf, name?, key_parse]
  · rw [key_parse]
    exact isSome_keyOf?
  · intro k hk
    rw [key_parse] at hk
    rw [hassigner]
    exact beforeAssigner_of_keyOf? hk
  · rw [key_parse, value_parse]
    exact whole_parse
  · rw [key_parse, value_parse, parse_eq, range_build]
    simp only [Range.ofWidth, Nat.zero_add]

/-! ## Within 64 bits -/

/-- Without a line feed a template stays on its line, so reading it is not refused. -/
theorem checked_parse (hfeed : '\n' ∉ content) (hline : line ≤ maxUInt64)
    (hlength : content.length ≤ maxUInt64) :
    (parse content line).checked = .ok (parse content line) := by
  rw [checked, value_parse]
  cases ht : (valueOf? content line).bind Chunk.template? with
  | none => rfl
  | some t =>
    obtain ⟨v, hv, hvt⟩ := Option.bind_eq_some_iff.mp ht
    have hchunk : v.text = t.chunk := by
      cases v with
      | literal c => contradiction
      | dynamic u => rw [← Option.some.inj hvt]; rfl
    obtain ⟨hlt, htext⟩ := text_of_valueOf? hv
    rw [hchunk, chunkOf_length] at htext
    have hscan : Pairing.scan? t.chunk.content t.chunk.range.start =
        .ok (Pairing.scan t.chunk.content t.chunk.range.start) := by
      rw [htext]
      refine Pairing.scan?_eq fun a ha => ?_
      have hsub := ha.sublist.trans (List.drop_sublist _ content)
      rw [Position.walk_eq_of_not_mem fun hmem => hfeed (hsub.subset hmem)]
      have hle := ha.length_le
      rw [List.length_drop] at hle
      constructor
      · exact hline
      · simp only
        omega
    simp only [hscan]
    rfl

/-- Every line is read, and as what its first assigner divides it into. -/
theorem parse_divides (hfeed : '\n' ∉ content) (hline : line ≤ maxUInt64)
    (hlength : content.length ≤ maxUInt64) :
    (parse content line).checked = .ok (parse content line) ∧
      (parse content line).Divides content line :=
  ⟨checked_parse hfeed hline hlength, divides_parse content line⟩

/-- On the last line that there can be: an indent, a blank that belongs to the key, and
an expression with another colon and a carriage return in it. -/
theorem parse_divides_template :
    let content := " \t\u00a0key : \x7b\x7ba:\rb\x7d\x7d".toList
    '\n' ∉ content ∧ maxUInt64 ≤ maxUInt64 ∧ content.length ≤ maxUInt64 ∧
      (parse content maxUInt64).checked = .ok (parse content maxUInt64) ∧
      (parse content maxUInt64).Divides content maxUInt64 := by
  intro content
  have hfeed : '\n' ∉ content := by decide
  have hlength : content.length ≤ maxUInt64 := by decide
  exact ⟨hfeed, Nat.le_refl _, hlength, parse_divides hfeed (Nat.le_refl _) hlength⟩

end Property

end KafkaScript
