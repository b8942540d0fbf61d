import Mathlib.Data.List.Nodup
import KafkaScript.Command
import KafkaScript.Proofs.Recognition
import KafkaScript.Proofs.Text.Addressing

/-!
# The layout of a consumer

A consumer is started from the names and the values of its properties. Where these
stand, in which order, and what blank and comment lines are between them does not
matter, as long as no name is given twice; of a name that is given twice only the
first one counts (`Script.read_relaid`).

A line is moved with what ends it, and the last line of a text has nothing that ends
it, so a carriage return may come to a line or leave it on the way. It comes and goes
at the end of the line, where blanks have no meaning: whatever is asked of a line has
the same answer when its end is trimmed (`Property.entry_trimEnd` and the lemmas
before it). The lines of a text are known up to that from the text itself
(`Document.map_trimEnd_lines`).
-/

namespace KafkaScript

/-! ## Blanks at the end of a line -/

namespace Text

variable {s : Text}

/-- The line is neither blank nor a comment. -/
def carries (l : Text) : Bool :=
  !(⟨0, l⟩ : Line).isIgnored

theorem carries_eq (l : Text) :
    l.carries = !(l.trim.isEmpty || commentMark.isPrefixOf l.trim) := by
  have hblank : l.trimStart.isEmpty = l.trim.isEmpty := by
    rw [Bool.eq_iff_iff, List.isEmpty_iff, List.isEmpty_iff, trim_eq_nil_iff_trimStart]
  have hcomment : commentMark.isPrefixOf l.trimStart = commentMark.isPrefixOf l.trim := by
    rw [Bool.eq_iff_iff, List.isPrefixOf_iff_prefix, List.isPrefixOf_iff_prefix]
    exact (prefix_trimEnd_iff (by decide)).symm
  rw [← hblank, ← hcomment]
  rfl

theorem carries_trimEnd (l : Text) : carries l.trimEnd = l.carries := by
  rw [carries_eq, carries_eq, trim_trimEnd]

theorem isPrefixOf_trimEnd (hs : s.trimEnd = s) (l : Text) :
    s.isPrefixOf l.trimEnd = s.isPrefixOf l := by
  rw [Bool.eq_iff_iff, List.isPrefixOf_iff_prefix, List.isPrefixOf_iff_prefix,
    prefix_trimEnd_iff hs]

/-- A line that begins with neither a blank nor a dash carries something. -/
theorem carries_cons {c : Char} (hblank : isBlank c = false) (hdash : c ≠ '-') (t : Text) :
    carries (c :: t) = true := by
  have htrim : trim (c :: t) = c :: t.trimEnd := by
    rw [trim, trimStart, List.dropWhile_cons_of_neg (by simp [hblank])]
    exact trimEnd_append_cons hblank [] t
  have hcomment : commentMark.isPrefixOf (c :: t.trimEnd) = false := by
    rw [commentMark, List.isPrefixOf_cons_cons, beq_false_of_ne hdash.symm, Bool.false_and]
  rw [carries_eq, htrim, hcomment]
  rfl

theorem trim_ne_nil_of_carries {l : Text} (h : l.carries = true) : l.trim ≠ [] := by
  intro hnil
  rw [carries_eq, hnil] at h
  contradiction

end Text

theorem BlockKind.openedBy?_trimEnd (l : Text) : openedBy? l.trimEnd = openedBy? l := by
  rw [openedBy?, openedBy?, Text.isPrefixOf_trimEnd (by decide),
    Text.isPrefixOf_trimEnd (by decide)]

namespace Property

variable {content : Text}

/-- The name and the value of a property. -/
def entry (p : Property) : Option Text × Option Text :=
  (p.name?, p.value?)

theorem value?_parse (content : Text) (line : Nat) : (parse content line).value? =
    (content.splitFirst assignerMark).map fun (_, value) => value.trim := by
  rw [value?, value_parse, valueOf?, assignerOf?]
  cases hcut : Text.splitFirst assignerMark content with
  | none => rfl
  | some cut =>
    obtain ⟨hcontent, -⟩ := Text.eq_append_of_splitFirst hcut
    simp only [Option.map_some, text_valueOf, chunkOf_length]
    rw [hcontent, List.drop_length_add_append]
    rfl

theorem name?_parse (content : Text) (line : Nat) : (parse content line).name? =
    if (beforeAssigner content).all isSkipped then none else some (beforeAssigner content).trim := by
  have hsome : (keyOf? content line).isSome = !(beforeAssigner content).all isSkipped := by
    rw [Bool.eq_iff_iff, isSome_keyOf?, Bool.not_eq_true', List.all_eq_false]
    simp only [isSkipped_iff, not_or]
  rw [trim_beforeAssigner content line, name?, key_parse]
  cases hk : keyOf? content line with
  | none =>
    rw [hk, Option.isSome_none, eq_comm, Bool.not_eq_false'] at hsome
    rw [if_pos hsome]
    rfl
  | some k =>
    rw [hk, Option.isSome_some, eq_comm, Bool.not_eq_true'] at hsome
    rw [if_neg (hsome ▸ Bool.false_ne_true)]
    rfl

theorem beforeAssigner_append {a : Text} (h : assignerMark ∉ a) (b : Text) :
    beforeAssigner (a ++ assignerMark :: b) = a := by
  rw [beforeAssigner, ← assignerOf?_eq, assignerOf?, Text.splitFirst_append_cons h]
  simp

theorem beforeAssigner_of_not_mem (h : assignerMark ∉ content) :
    beforeAssigner content = content := by
  rw [beforeAssigner, ← assignerOf?_eq, assignerOf?, Text.splitFirst_eq_none_iff.mpr h]
  simp

/-- Neither the name nor the value depends on the blanks at the end of the line, or on
its number. -/
theorem entry_trimEnd (h : content.trim ≠ []) (m n : Nat) :
    (parse content.trimEnd m).entry = (parse content n).entry := by
  rw [entry, entry, name?_parse, name?_parse, value?_parse, value?_parse]
  by_cases hmark : assignerMark ∈ content
  · -- the blanks are behind the assigner
    obtain ⟨a, b, rfl, ha⟩ := List.eq_append_cons_of_mem hmark
    rw [Text.trimEnd_append_cons (by decide), beforeAssigner_append ha, beforeAssigner_append ha,
      Text.splitFirst_append_cons ha, Text.splitFirst_append_cons ha]
    simp only [Option.map_some, Text.trim_trimEnd]
  · -- the line is a key, which is not blank
    have hmark' : assignerMark ∉ content.trimEnd := fun hm =>
      hmark ((List.rdropWhile_prefix Text.isBlank content).subset hm)
    have hkey : ∀ t : Text, t.trim = content.trim → ¬ t.all isSkipped = true := by
      intro t ht hall
      refine h (ht ▸ Text.trim_eq_nil_iff.mpr fun c hc => ?_)
      rcases isSkipped_iff.mp (List.all_eq_true.mp hall c hc) with rfl | rfl
      · decide
      · decide
    rw [beforeAssigner_of_not_mem hmark', beforeAssigner_of_not_mem hmark,
      Text.splitFirst_eq_none_iff.mpr hmark', Text.splitFirst_eq_none_iff.mpr hmark,
      if_neg (hkey _ content.trim_trimEnd), if_neg (hkey _ rfl), Text.trim_trimEnd]

theorem entry_parse (h : content.carries = true) (m n : Nat) :
    (parse content m).entry = (parse content n).entry :=
  have hne := Text.trim_ne_nil_of_carries h
  (entry_trimEnd hne m m).symm.trans (entry_trimEnd hne m n)

/-- The names and values that the lines of a body give. -/
def entriesOf (body : List Text) : List (Option Text × Option Text) :=
  (body.filter Text.carries).map fun l => (parse l 0).entry

theorem entriesOf_append (front back : List Text) :
    entriesOf (front ++ back) = entriesOf front ++ entriesOf back := by
  rw [entriesOf, List.filter_append, List.map_append]
  rfl

theorem entriesOf_cons {l : Text} (h : l.carries = true) (body : List Text) :
    entriesOf (l :: body) = (parse l 0).entry :: entriesOf body := by
  rw [entriesOf, List.filter_cons_of_pos h, List.map_cons]
  rfl

theorem entriesOf_eq (body : List Text) : entriesOf body =
    ((body.filter Text.carries).map Text.trimEnd).map fun l => (parse l 0).entry := by
  rw [entriesOf, List.map_map]
  apply List.map_congr_left
  intro l hl
  exact (entry_trimEnd (Text.trim_ne_nil_of_carries (List.mem_filter.mp hl).2) 0 0).symm

theorem entriesOf_map_trimEnd (body : List Text) :
    entriesOf (body.map Text.trimEnd) = entriesOf body := by
  have hcarries : Text.carries ∘ Text.trimEnd = Text.carries := funext Text.carries_trimEnd
  rw [entriesOf, List.filter_map, hcarries, entriesOf_eq]

/-! ## Looking names up -/

theorem valueNamed?_eq (ps : List Property) (name : Text) : valueNamed? ps name =
    ((ps.map entry).find? fun e => e.1 == some name).bind Prod.snd := by
  rw [valueNamed?, named?, List.find?_map, Option.bind_map]
  rfl

/-- Where no name is given twice, the order does not matter. -/
theorem find?_entry_of_perm {es es' : List (Option Text × Option Text)} (h : es.Perm es')
    (hnodup : (es.filterMap Prod.fst).Nodup) (name : Text) :
    es.find? (fun e => e.1 == some name) = es'.find? fun e => e.1 == some name := by
  have hfew : (es.filter fun e => e.1 == some name).length ≤ 1 := by
    rw [← List.countP_eq_length_filter, ← List.count_filterMap]
    exact List.nodup_iff_count_le_one.mp hnodup name
  have hperm := h.filter fun e => e.1 == some name
  rw [← List.head?_filter, ← List.head?_filter]
  cases hes : es.filter fun e => e.1 == some name with
  | nil =>
    rw [hes] at hperm
    rw [hperm.nil_eq]
  | cons e rest =>
    rw [hes, List.length_cons] at hfew
    obtain rfl : rest = [] := List.length_eq_zero_iff.mp (by omega)
    rw [hes] at hperm
    rw [List.singleton_perm.mp hperm]

/-- A name that was given before does not count. -/
theorem find?_entry_of_repeated {front : List (Option Text × Option Text)}
    {e : Option Text × Option Text} (h : e.1 ∈ front.map Prod.fst)
    (back : List (Option Text × Option Text)) (name : Text) :
    (front ++ e :: back).find? (fun e => e.1 == some name) =
      (front ++ back).find? fun e => e.1 == some name := by
  rw [List.find?_append, List.find?_append]
  by_cases hname : e.1 = some name
  · obtain ⟨e', he', heq⟩ := List.mem_map.mp h
    have hfound : (front.find? fun e => e.1 == some name).isSome = true := by
      rw [List.find?_isSome]
      exact ⟨e', he', by simp [heq, hname]⟩
    obtain ⟨first, hfirst⟩ := Option.isSome_iff_exists.mp hfound
    rw [hfirst, Option.some_or, Option.some_or]
  · rw [List.find?_cons_of_neg (by simpa using hname)]

end Property

/-! ## The lines of a text -/

/-- With line feeds between them, some lines are the lines of the text, up to blanks at
their ends. -/
theorem RawLine.map_trimEnd_ofText {ls : List Text} (hne : ls ≠ []) (h : ∀ l ∈ ls, '\n' ∉ l) :
    (ofText (Text.join ['\n'] ls)).map (·.content.trimEnd) = ls.map Text.trimEnd := by
  fun_induction Text.join ['\n'] ls with
  | case1 => contradiction
  | case2 l =>
    have hline := ofText_join (.last (h l List.mem_cons_self))
    rw [join_cons, join_nil, text, Ending.text, List.append_nil, List.append_nil] at hline
    rw [hline]
    rfl
  | case3 l ls hls ih =>
    obtain ⟨hl, hrest⟩ := List.forall_mem_cons.mp h
    have hcontent : (ofPiece (l ++ ['\n'])).content.trimEnd = l.trimEnd := by
      rw [ofPiece_lineFeed]
      split
      · next hcr =>
        obtain ⟨front, rfl⟩ := List.getLast?_eq_some_iff.mp hcr
        rw [List.dropLast_concat,
          Text.trimEnd_append_of_blank (List.forall_mem_singleton.mpr (by decide))]
      · rfl
    rw [List.append_assoc, List.singleton_append, ofText_append_lineFeed hl, List.map_cons,
      hcontent, ih (fun hnil => hls hnil) hrest, List.map_cons]

/-! ## One consumer -/

/-- The lines of a text that is one consumer: the first opens it, and of the others
none separates blocks or opens one. -/
structure ConsumerLines (opening : Text) (body : List Text) : Prop where
  lineFeed : ∀ l ∈ opening :: body, '\n' ∉ l
  opens : BlockKind.openedBy? opening = some .consumer
  stays : ∀ l ∈ body, separatorMark.isPrefixOf l = false ∧ BlockKind.openedBy? l = none

namespace BlockSpan

/-- Lines that all belong to what is open leave it open up to the end. -/
theorem from?_of_keeps {s : BlockState} {last : Option Nat} {n : Nat} {ls : List Line}
    (hs : s.At last n) (hls : Line.NumberedFrom n ls) (h : ∀ l ∈ ls, s.keeps l = true) :
    from? s last ls = (s.closedBefore? (n + ls.length)).toList := by
  induction ls generalizing last n with
  | nil =>
    rw [from?, hs.finish]
    rfl
  | cons l ls ih =>
    obtain ⟨rfl, hls⟩ := hls
    obtain ⟨hl, hrest⟩ := List.forall_mem_cons.mp h
    rw [from?_cons, if_pos hl, ih hs.keep hls hrest, List.length_cons, Nat.add_right_comm,
      Nat.add_assoc]

theorem ofLines_consumer {opening : Line} {body : List Line}
    (hls : Line.NumberedFrom 0 (opening :: body)) (hopen : opening.opener? = some .consumer)
    (hstays : ∀ l ∈ body, l.isSeparator = false ∧ l.opener? = none) :
    ofLines (opening :: body) = [⟨.consumer, 0, body.length⟩] := by
  obtain ⟨hnumber, hbody⟩ := hls
  have hafter : BlockState.after opening = .inside .consumer 0 := by
    rw [BlockState.after, hopen, hnumber]
  have hat := BlockState.at_after opening
  rw [hafter, hnumber] at hat
  have hkeeps : ∀ l ∈ body, (BlockState.inside .consumer 0).keeps l = true := by
    intro l hl
    obtain ⟨hsep, hopener⟩ := hstays l hl
    simp [BlockState.keeps, BlockState.endsAt, hsep, hopener]
  rw [ofLines, from?_cons, hafter, hnumber, from?_of_keeps hat hbody hkeeps]
  simp [BlockState.keeps, BlockState.closedBefore?]

end BlockSpan

theorem Document.map_trimEnd_lines {d : Document} {ls : List Text} (hne : ls ≠ [])
    (h : ∀ l ∈ ls, '\n' ∉ l) (htext : d.text = Text.join ['\n'] ls) :
    d.lines.map (·.content.trimEnd) = ls.map Text.trimEnd := by
  rw [← RawLine.map_trimEnd_ofText hne h, ← htext, lines, rawLines, List.map_map]
  conv_rhs => rw [← List.zipIdx_map_fst 0 (RawLine.ofText d.text), List.map_map]
  rfl

/-- The group that an opening line names does not depend on blanks at its end. -/
theorem ConsumerBlock.trim_afterKeyword_trimEnd {l : Line} (h : l.opener? = some .consumer) :
    (afterKeyword { l with content := l.content.trimEnd }).trim = (afterKeyword l).trim := by
  have hlast : BlockKind.consumer.keyword.getLast? = some 'R' := by decide
  conv_lhs => rw [content_of_opener h]
  rw [afterKeyword, Text.trimEnd_append_of_getLast? hlast (by decide), List.drop_left,
    Text.trim_trimEnd]

/-- The block of such a text. -/
theorem Script.read_consumer {opening : Text} {body : List Text} (h : ConsumerLines opening body)
    {d : Document} (htext : d.text = Text.join ['\n'] (opening :: body)) (catalog : Catalog) :
    ∃ s b, read d catalog = .ok s ∧ s.blocks = [.consumer b] ∧
      b.groupId.content = (ConsumerBlock.afterKeyword ⟨0, opening.trimEnd⟩).trim ∧
      b.properties.map Property.entry = Property.entriesOf body := by
  have htrim := Document.map_trimEnd_lines (List.cons_ne_nil opening body) h.lineFeed htext
  rw [List.map_cons] at htrim
  obtain ⟨first, rest, hlines, hfirst, hrest⟩ := List.map_eq_cons_iff.mp htrim
  have hnumbered := d.numbered_lines
  rw [hlines] at hnumbered
  have hopen : first.opener? = some .consumer := by
    rw [Line.opener?, ← BlockKind.openedBy?_trimEnd, hfirst, BlockKind.openedBy?_trimEnd, h.opens]
  have hstays : ∀ l ∈ rest, l.isSeparator = false ∧ l.opener? = none := by
    intro l hl
    have hmem : l.content.trimEnd ∈ body.map Text.trimEnd := hrest ▸ List.mem_map_of_mem hl
    obtain ⟨m, hm, heq⟩ := List.mem_map.mp hmem
    rw [Line.isSeparator, Line.opener?, ← Text.isPrefixOf_trimEnd (by decide),
      ← BlockKind.openedBy?_trimEnd, ← heq, Text.isPrefixOf_trimEnd (by decide),
      BlockKind.openedBy?_trimEnd]
    exact h.stays m hm
  have hspans := BlockSpan.ofLines_consumer hnumbered hopen hstays
  let b := ConsumerBlock.read (first :: rest) ⟨⟨first.number, 0⟩, (rangeOf (first :: rest)).stop⟩
  refine ⟨_, b, read_eq d catalog, ?_, ?_, ?_⟩
  · have hslice : BlockSpan.slice (first :: rest) ⟨.consumer, 0, rest.length⟩ = first :: rest :=
      List.take_of_length_le (Nat.le_refl _)
    rw [ofLines, hlines, hspans, List.map_singleton, hslice]
    rfl
  · show (ConsumerBlock.groupIdOf first).content = _
    rw [ConsumerBlock.groupIdOf_eq hopen, ← hfirst]
    exact (ConsumerBlock.trim_afterKeyword_trimEnd hopen).symm
  · have hentries : Property.entriesOf (rest.map (·.content)) = Property.entriesOf body := by
      rw [← Property.entriesOf_map_trimEnd, List.map_map, ← Property.entriesOf_map_trimEnd body,
        ← hrest]
      rfl
    rw [← hentries, Property.entriesOf, List.filter_map, List.map_map]
    show ((Line.carrying rest).map fun l => Property.parse l.content l.number).map _ = _
    rw [List.map_map]
    apply List.map_congr_left
    intro l hl
    exact Property.entry_parse (List.mem_filter.mp hl).2 l.number 0

/-! ## Other layouts -/

/-- The lines of the second text are those of the first one, in any order, with blank
and comment lines added or left out. Blanks at the ends of lines do not count, and so
it does not matter which lines end in a carriage return. -/
structure Relaid (opening : Text) (body : List Text) (opening' : Text) (body' : List Text) :
    Prop where
  lineFeed : ∀ l ∈ opening' :: body', '\n' ∉ l
  opening : opening'.trimEnd = opening.trimEnd
  body : ((body'.filter Text.carries).map Text.trimEnd).Perm
    ((body.filter Text.carries).map Text.trimEnd)

variable {opening opening' : Text} {body body' : List Text}

theorem Relaid.consumerLines (h : Relaid opening body opening' body')
    (hlines : ConsumerLines opening body) : ConsumerLines opening' body' where
  lineFeed := h.lineFeed
  opens := by
    rw [← BlockKind.openedBy?_trimEnd, h.opening, BlockKind.openedBy?_trimEnd, hlines.opens]
  stays := by
    intro l hl
    by_cases hcarries : l.carries = true
    · -- the line is one of the first text
      have hmem := h.body.subset (List.mem_map_of_mem (List.mem_filter.mpr ⟨hl, hcarries⟩))
      obtain ⟨m, hm, heq⟩ := List.mem_map.mp hmem
      rw [← Text.isPrefixOf_trimEnd (by decide), ← BlockKind.openedBy?_trimEnd, ← heq,
        Text.isPrefixOf_trimEnd (by decide), BlockKind.openedBy?_trimEnd]
      exact hlines.stays m (List.mem_filter.mp hm).1
    · -- what separates or opens begins with a character that blank and comment lines have not
      have hother : ∀ c t, Text.isBlank c = false → c ≠ '-' → (c :: t).isPrefixOf l = false := by
        intro c t hblank hdash
        apply eq_false_of_ne_true
        intro hp
        obtain ⟨u, rfl⟩ := List.isPrefixOf_iff_prefix.mp hp
        exact hcarries (Text.carries_cons hblank hdash (t ++ u))
      have hproducer : BlockKind.producer.keyword.isPrefixOf l = false :=
        hother 'P' "RODUCER".toList (by decide) (by decide)
      have hconsumer : BlockKind.consumer.keyword.isPrefixOf l = false :=
        hother 'C' "ONSUMER".toList (by decide) (by decide)
      refine ⟨hother '#' ['#', '#'] (by decide) (by decide), ?_⟩
      rw [BlockKind.openedBy?, hproducer, hconsumer]
      rfl

theorem Relaid.entries (h : Relaid opening body opening' body') :
    (Property.entriesOf body).Perm (Property.entriesOf body') := by
  rw [Property.entriesOf_eq, Property.entriesOf_eq]
  exact h.body.symm.map _

/-- A command depends on the group and on the values that the names have. -/
theorem ConsumeCommand.ofBlock_congr {b b' : ConsumerBlock}
    (hgroup : b.groupId.content = b'.groupId.content)
    (h : ∀ name, Property.valueNamed? b.properties name = Property.valueNamed? b'.properties name) :
    ofBlock b = ofBlock b' := by
  simp only [ofBlock, Property.filledValue?, hgroup, h]

/-- Every document of these lines is one consumer, which is started by the command. -/
def Script.Starts (catalog : Catalog) (lines : List Text) (command : ConsumeCommand) : Prop :=
  ∀ d : Document, d.text = Text.join ['\n'] lines →
    (read d catalog).map (fun s => s.blocks.map Command.ofBlock) = .ok [.consume command]

/-- The line is a property of that name. -/
def Property.OnLine (name l : Text) : Prop :=
  l.carries = true ∧ (parse l 0).name? = some name

theorem Script.starts_of_find? {b : ConsumerBlock} (hlines : ConsumerLines opening' body')
    (hgroup : b.groupId.content = (ConsumerBlock.afterKeyword ⟨0, opening'.trimEnd⟩).trim)
    (h : ∀ name, ((b.properties.map Property.entry).find? fun e => e.1 == some name) =
      (Property.entriesOf body').find? fun e => e.1 == some name) (catalog : Catalog) :
    Starts catalog (opening' :: body') (.ofBlock b) := by
  intro d htext
  obtain ⟨s, b', hread, hblocks, hgroup', hentries⟩ := read_consumer hlines htext catalog
  have hcommand : ConsumeCommand.ofBlock b' = .ofBlock b := by
    apply ConsumeCommand.ofBlock_congr
    · rw [hgroup', hgroup]
    · intro name
      rw [Property.valueNamed?_eq, Property.valueNamed?_eq, hentries, h]
  rw [hread, Except.map, hblocks, List.map_singleton, Command.ofBlock, hcommand]

/-- A text of one consumer says the same in every layout in which no name is given
twice, and a property whose name was given before can be left out of it. -/
theorem Script.read_relaid (h : ConsumerLines opening body) {d : Document}
    (htext : d.text = Text.join ['\n'] (opening :: body)) (catalog : Catalog) :
    ∃ s b, read d catalog = .ok s ∧ s.blocks = [.consumer b] ∧
      ((b.properties.filterMap Property.name?).Nodup → ∀ opening' body',
        Relaid opening body opening' body' → Starts catalog (opening' :: body') (.ofBlock b)) ∧
      ∀ front l back name, body = front ++ l :: back → Property.OnLine name l →
        (∃ m ∈ front, Property.OnLine name m) →
        Starts catalog (opening :: (front ++ back)) (.ofBlock b) := by
  obtain ⟨s, b, hread, hblocks, hgroup, hentries⟩ := read_consumer h htext catalog
  refine ⟨s, b, hread, hblocks, ?_, ?_⟩
  · intro hnodup opening' body' hrelaid
    have hnames : b.properties.filterMap Property.name? =
        (Property.entriesOf body).filterMap Prod.fst := by
      rw [← hentries, List.filterMap_map]
      rfl
    rw [hnames] at hnodup
    apply starts_of_find? (hrelaid.consumerLines h)
    · rw [hgroup, hrelaid.opening]
    · intro name
      rw [hentries]
      exact Property.find?_entry_of_perm hrelaid.entries hnodup name
  · rintro front l back name rfl ⟨hcarries, hname⟩ ⟨m, hm, hmcarries, hmname⟩
    have hsubset : front ++ back ⊆ front ++ l :: back :=
      List.append_subset.mpr ⟨List.subset_append_left _ _,
        fun x hx => List.mem_append_right _ (List.mem_cons_of_mem l hx)⟩
    have hless : ConsumerLines opening (front ++ back) :=
      ⟨fun x hx => h.lineFeed x (List.cons_subset_cons opening hsubset hx), h.opens,
        fun x hx => h.stays x (hsubset hx)⟩
    have hgiven : (Property.parse l 0).entry.1 ∈ (Property.entriesOf front).map Prod.fst := by
      have hentry : (Property.parse m 0).entry ∈ Property.entriesOf front :=
        List.mem_map_of_mem (List.mem_filter.mpr ⟨hm, hmcarries⟩)
      have hfst := List.mem_map_of_mem (f := Prod.fst) hentry
      rwa [Property.entry, hmname, ← hname] at hfst
    apply starts_of_find? hless hgroup
    intro name'
    rw [hentries, Property.entriesOf_append, Property.entriesOf_append,
      Property.entriesOf_cons hcarries, Property.find?_entry_of_repeated hgiven]

/-- The last line, which is a key alone, comes first and gets a carriage return; and a
key alone makes a later value of the same name superfluous. -/
theorem Script.read_relaid_returns :
    let opening := "CONSUMER g\r".toList
    let body := ["topic: a\r".toList, "partitions : 2-3\r".toList, "from".toList]
    let body' := ["from\r".toList, "--\r".toList, "partitions : 2-3\r".toList, "\u3000".toList,
      "topic: a".toList]
    let again := ["from".toList, "topic: a".toList, " from:0\r".toList]
    let d := Document.kafka [] (Text.join ['\n'] (opening :: body))
    let d' := Document.kafka [] (Text.join ['\n'] (opening :: again))
    ConsumerLines opening body ∧ Relaid opening body opening body' ∧ ConsumerLines opening again ∧
      (∃ s b, read d .standard = .ok s ∧ s.blocks = [.consumer b] ∧
        (b.properties.filterMap Property.name?).Nodup ∧
        Starts .standard (opening :: body') (.ofBlock b)) ∧
      ∃ s b, read d' .standard = .ok s ∧ s.blocks = [.consumer b] ∧
        Starts .standard [opening, "from".toList, "topic: a".toList] (.ofBlock b) := by
  intro opening body body' again d d'
  have hbody : ConsumerLines opening body := ⟨by decide, by decide, by decide⟩
  have hrelaid : Relaid opening body opening body' := ⟨by decide, rfl, by decide⟩
  have hagain : ConsumerLines opening again := ⟨by decide, by decide, by decide⟩
  obtain ⟨s, b, hread, hblocks, hlayouts, -⟩ := read_relaid hbody (d := d) rfl .standard
  obtain ⟨s', b', hread', hblocks', -, hless⟩ := read_relaid hagain (d := d') rfl .standard
  have hnames : (read d .standard).map
      (fun s => s.blocks.map fun b => b.properties.filterMap Property.name?) =
        .ok [["topic".toList, "partitions".toList, "from".toList]] := by decide +kernel
  rw [hread, Except.map, hblocks] at hnames
  have hnodup : (b.properties.filterMap Property.name?).Nodup := by
    have heq : b.properties.filterMap Property.name? = _ :=
      List.singleton_inj.mp (Except.ok.inj hnames)
    rw [heq]
    decide
  refine ⟨hbody, hrelaid, hagain, ⟨s, b, hread, hblocks, hnodup, hlayouts hnodup _ _ hrelaid⟩,
    s', b', hread', hblocks', ?_⟩
  exact hless ["from".toList, "topic: a".toList] " from:0\r".toList [] "from".toList rfl
    ⟨by decide, by decide⟩ ⟨"from".toList, by decide, by decide, by decide⟩

end KafkaScript
