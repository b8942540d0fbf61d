import KafkaScript.Config
import KafkaScript.Proofs.Division
import KafkaScript.Proofs.Reading

/-!
# Recognising a property and looking it up

Whether a line of a producer block is a property is decided by the name in front of its
first assigner. The property is then read from the line by other means, and all that
asks for it later goes by the name of its key. The two names are the same
(`Property.nameOfLine?_eq_some_iff`), but for a line without a key, whose name is empty
and which a catalog does not know unless it has a property without a name. So every
property of a producer block can be looked up (`Script.read_recognised`).
-/

namespace KafkaScript

/-- No known property of the kind has a blank name. -/
def Catalog.IsNamed (c : Catalog) (kind : BlockKind) : Prop :=
  ∀ d ∈ c.properties kind, d.name.trim ≠ []

instance (c : Catalog) (kind : BlockKind) : Decidable (c.IsNamed kind) :=
  inferInstanceAs (Decidable (∀ d ∈ c.properties kind, d.name.trim ≠ []))

/-- A property of a block that is complete, known to the catalog and found by its
name, or else an earlier one of the same name is. -/
structure Property.Recognised (catalog : Catalog) (b : Block) (p : Property) : Prop where
  key : p.key.isSome = true
  assigner : p.assigner.isSome = true
  value : p.value.isSome = true
  definition : (p.definition? catalog b.kind).isSome = true
  /-- What is found is the first property of that name. -/
  found : ∃ name first before behind, p.name? = some name ∧ b.property? name = some first ∧
    b.properties = before ++ first :: behind ∧ first.name? = some name ∧
    ∀ q ∈ before, q.name? ≠ some name

namespace Text

/-- A blank run in front does not change what trimming leaves. -/
theorem trim_append_of_blank {s : Text} (h : ∀ c ∈ s, isBlank c = true) (t : Text) :
    (s ++ t).trim = t.trim := by
  rw [trim, trimStart, List.dropWhile_append_of_pos h]
  rfl

theorem isBlank_of_mem_indent {t : Text} : ∀ c ∈ t.indent, isBlank c = true := by
  intro c hc
  have hskipped : Property.isSkipped c = true :=
    List.mem_takeWhile_imp (p := Property.isSkipped) hc
  rcases Property.isSkipped_iff.mp hskipped with rfl | rfl <;> rfl

end Text

namespace Property

variable {content : Text} {line : Nat}

/-- The name of a line is what stands before its assigner, trimmed. -/
theorem nameOfLine?_eq : nameOfLine? content =
    (assignerOf? content).map fun _ => (beforeAssigner content).trim := by
  rw [nameOfLine?, ← take_keyStop, keyStop, assignerOf?]
  cases hcut : Text.splitFirst assignerMark content with
  | none => rfl
  | some cut =>
    obtain ⟨hcontent, -⟩ := Text.eq_append_of_splitFirst hcut
    have hbefore : content.take cut.1.length = cut.1 := by
      rw [hcontent, List.take_left]
    simp only [Option.map_some, Option.getD_some, hbefore]

/-- What stands before the assigner has the name of the key, and none without a key. -/
theorem trim_beforeAssigner (content : Text) (line : Nat) : (beforeAssigner content).trim =
    (parse content line).name?.getD [] := by
  rw [name?, key_parse]
  cases hk : keyOf? content line with
  | none =>
    rw [beforeAssigner_of_keyOf?_none hk]
    exact Text.trim_eq_nil_iff.mpr Text.isBlank_of_mem_indent
  | some k =>
    rw [(beforeAssigner_of_keyOf? hk).1, Text.trim_append_of_blank Text.isBlank_of_mem_indent]
    rfl

theorem nameOfLine?_eq_some_iff {name : Text} : nameOfLine? content = some name ↔
    (parse content line).assigner.isSome = true ∧ name = (parse content line).name?.getD [] := by
  rw [nameOfLine?_eq, (divides_parse content line).assigner, ← assignerOf?_eq,
    trim_beforeAssigner content line]
  cases assignerOf? content with
  | none => simp
  | some c => simp [eq_comm]

/-- Looking a name up finds the first property that has it. -/
theorem exists_named? {ps : List Property} {p : Property} {name : Text} (hp : p ∈ ps)
    (hname : p.name? = some name) : ∃ first before behind, named? ps name = some first ∧
      ps = before ++ first :: behind ∧ first.name? = some name ∧ ∀ q ∈ before, q.name? ≠ some name := by
  have hsome : (named? ps name).isSome = true := by
    rw [named?, List.find?_isSome]
    exact ⟨p, hp, by simp [hname]⟩
  obtain ⟨first, hfirst⟩ := Option.isSome_iff_exists.mp hsome
  obtain ⟨hhas, before, behind, hps, hbefore⟩ := List.find?_eq_some_iff_append.mp hfirst
  exact ⟨first, before, behind, hfirst, hps, by simpa using hhas, by simpa using hbefore⟩

end Property

namespace Catalog

variable {catalog : Catalog} {kind : BlockKind}

theorem IsNamed.ne_nil {name : Text} (h : catalog.IsNamed kind)
    (hknown : catalog.isKnown kind name = true) : name ≠ [] := by
  obtain ⟨d, hd⟩ := Option.isSome_iff_exists.mp hknown
  have hname : d.name = name := by simpa using List.find?_some hd
  rintro rfl
  have hblank := h d (List.mem_of_find?_eq_some hd)
  rw [hname] at hblank
  exact hblank rfl

end Catalog

/-! ## Producer blocks -/

/-- A line that is known as a property is read as one that can be looked up. -/
theorem Property.recognised_parse {catalog : Catalog} (h : catalog.IsNamed .producer)
    {b : ProducerBlock} {l : Line} (hl : ProducerBlock.isProperty catalog l = true)
    (hmem : parse l.content l.number ∈ b.properties) :
    (parse l.content l.number).Recognised catalog (.producer b) := by
  rw [ProducerBlock.isProperty, Option.any_eq_true] at hl
  obtain ⟨name, hline, hknown⟩ := hl
  obtain ⟨hassigner, hname⟩ := nameOfLine?_eq_some_iff.mp hline
  -- the name is not empty, so it is that of a key
  have hnamed : (parse l.content l.number).name? = some name := by
    cases hkey : (parse l.content l.number).name? with
    | none =>
      rw [hkey] at hname
      exact absurd hname (h.ne_nil hknown)
    | some name' => rw [hname, hkey, Option.getD_some]
  refine ⟨?_, hassigner, ?_, ?_, name, ?_⟩
  · have hsome := congrArg Option.isSome hnamed
    rwa [name?, Option.isSome_map] at hsome
  · rw [(divides_parse l.content l.number).value_isSome]
    exact hassigner
  · rw [definition?, hnamed]
    exact hknown
  · obtain ⟨first, before, behind, hfirst, hrest⟩ := exists_named? hmem hnamed
    exact ⟨first, before, behind, hnamed, hfirst, hrest⟩

theorem Block.properties_of_ofLines {source : List RawLine} {catalog : Catalog} {kind : BlockKind}
    {ls : List Line} {b : ProducerBlock} (h : ofLines source catalog kind ls = .producer b) :
    b.properties = (ProducerBlock.propertyLines catalog ls.tail).map
      fun l => Property.parse l.content l.number := by
  cases kind with
  | producer => rw [← Block.producer.inj h]
  | consumer => contradiction

/-! ## Configured catalogs -/

theorem Catalog.isNamed_standard (kind : BlockKind) : standard.IsNamed kind := by
  cases kind <;> decide

/-- A configuration without a flaw has names for all properties. -/
theorem Config.isNamed_catalog {c : Config} (h : c.flaw? = none) (kind : BlockKind) :
    c.catalog.IsNamed kind := by
  have hblank : c.blankName? kind = none := by
    unfold flaw? at h
    split at h
    · contradiction
    · cases hproducer : c.blankName? .producer with
      | some flaw => simp [hproducer] at h
      | none =>
        cases kind with
        | producer => exact hproducer
        | consumer => simpa [hproducer] using h
  rw [blankName?, Option.map_eq_none_iff, List.find?_eq_none] at hblank
  have hproperties : c.catalog.properties kind =
      (c.table? kind).getD (Catalog.standard.properties kind) := by
    cases kind <;> rfl
  rw [Catalog.IsNamed, hproperties]
  cases htable : c.table? kind with
  | none => exact Catalog.isNamed_standard kind
  | some table =>
    rw [htable] at hblank
    intro d hd hnil
    exact hblank d hd (by rw [hnil]; rfl)

/-- A line is recognised by the name of the property that is read from it. So in every
producer block of a document all properties can be looked up, whatever the catalog, as
long as its names are not blank, which those of a configuration without a flaw are not. -/
theorem Script.read_recognised {catalog : Catalog} (h : catalog.IsNamed .producer) (d : Document) :
    (∀ content line name, Property.nameOfLine? content = some name ↔
      (Property.parse content line).assigner.isSome = true ∧
        name = (Property.parse content line).name?.getD []) ∧
    (∃ s, read d catalog = .ok s ∧ ∀ b, .producer b ∈ s.blocks →
      ∀ p ∈ b.properties, p.Recognised catalog (.producer b)) ∧
    ∀ c : Config, c.flaw? = none → c.catalog.IsNamed .producer := by
  refine ⟨fun _ _ _ => Property.nameOfLine?_eq_some_iff, ⟨_, read_eq d catalog, ?_⟩,
    fun _ hflaw => Config.isNamed_catalog hflaw .producer⟩
  intro b hb p hp
  obtain ⟨span, -, hspan⟩ := List.mem_map.mp hb
  have hproperties := Block.properties_of_ofLines hspan
  rw [hproperties] at hp
  obtain ⟨l, hl, rfl⟩ := List.mem_map.mp hp
  rw [← hproperties] at hp
  exact Property.recognised_parse h (List.mem_takeWhile_imp hl) hp

/-- Three properties, two of them of one name and one behind a blank that an indent does
not have, and then a line without a key. -/
theorem Script.read_recognised_again :
    let d := Document.kafka [] "PRODUCER\n\u00a0topic : a\nkey:\ntopic:b\n: c\n".toList
    Catalog.standard.IsNamed .producer ∧
      ∃ s, read d .standard = .ok s ∧
        s.blocks.map (fun b => b.properties.map Property.name?) =
          [[some "topic".toList, some "key".toList, some "topic".toList]] ∧
        ∀ b, .producer b ∈ s.blocks → ∀ p ∈ b.properties, p.Recognised .standard (.producer b) := by
  intro d
  have hnamed := Catalog.isNamed_standard .producer
  obtain ⟨-, ⟨s, hread, hrecognised⟩, -⟩ := read_recognised hnamed d
  refine ⟨hnamed, s, hread, ?_, hrecognised⟩
  have hnames : (read d .standard).map (fun s => s.blocks.map fun b => b.properties.map Property.name?) =
      .ok [[some "topic".toList, some "key".toList, some "topic".toList]] := by decide +kernel
  rw [hread] at hnames
  exact Except.ok.inj hnames

end KafkaScript
