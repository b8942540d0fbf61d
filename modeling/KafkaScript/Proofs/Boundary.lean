import Mathlib.Data.List.Forall2
import KafkaScript.Proofs.Coverage

/-!
# Where the properties of a block end

Of all that is read from a document, the catalog decides one thing: on which line of
a producer block its value begins. A catalog that knows more names moves that line
down (`ProducerBlock.valueLines_suffix`). The properties then go on where they stopped
before. The text from the new line on is the end of the text from the old one on, and
trimming leaves the end of what it left before (`Template.trimmed?_append`), because
what is put in front of a text does not move the end of the trimmed text.
-/

namespace KafkaScript

/-- Every name of a kind that one catalog knows is known to the other. -/
def Catalog.IncludedIn (c larger : Catalog) (kind : BlockKind) : Prop :=
  ∀ name, c.isKnown kind name = true → larger.isKnown kind name = true

/-- What becomes of a block when more names are known. A consumer block stays as it
is. In a producer block the properties go on where they stopped, and a value that is
left is the end of the value that was there, up to the same position. -/
inductive Block.GivesWay : Block → Block → Prop where
  | consumer (b : ConsumerBlock) : GivesWay (.consumer b) (.consumer b)
  | producer {b b' : ProducerBlock} : b'.range = b.range → b.properties <+: b'.properties →
      (∀ value' ∈ b'.value, ∃ value ∈ b.value,
        value'.chunk.content <:+ value.chunk.content ∧
          value'.chunk.range.stop = value.chunk.range.stop) →
      GivesWay (.producer b) (.producer b')

/-- A catalog that lists the same properties and more knows the same names and more. -/
theorem Catalog.includedIn_of_subset {c larger : Catalog} {kind : BlockKind}
    (h : c.properties kind ⊆ larger.properties kind) : c.IncludedIn larger kind := by
  intro name hknown
  rw [isKnown, definition?, List.find?_isSome] at hknown ⊢
  obtain ⟨d, hd, hname⟩ := hknown
  exact ⟨d, h hd, hname⟩

/-! ## The cut moves down -/

namespace ProducerBlock

variable {catalog larger : Catalog}

theorem isProperty_of_includedIn (h : catalog.IncludedIn larger .producer) {l : Line}
    (hl : isProperty catalog l = true) : isProperty larger l = true := by
  rw [isProperty, Option.any_eq_true] at hl ⊢
  obtain ⟨name, hname, hknown⟩ := hl
  exact ⟨name, hname, h name hknown⟩

/-- The lines of the properties go on where they stopped. -/
theorem propertyLines_prefix (h : catalog.IncludedIn larger .producer) (ls : List Line) :
    propertyLines catalog ls <+: propertyLines larger ls := by
  unfold propertyLines
  generalize Line.carrying ls = cs
  induction cs with
  | nil => exact List.prefix_refl _
  | cons l cs ih =>
    by_cases hknown : isProperty catalog l = true
    · rw [List.takeWhile_cons_of_pos hknown,
        List.takeWhile_cons_of_pos (isProperty_of_includedIn h hknown)]
      exact List.cons_prefix_cons.mpr ⟨rfl, ih⟩
    · rw [List.takeWhile_cons_of_neg hknown]
      exact List.nil_prefix

/-- What is left for the value is the end of what was left for it. -/
theorem valueLines_suffix (h : catalog.IncludedIn larger .producer) (ls : List Line) :
    valueLines larger ls <:+ valueLines catalog ls := by
  obtain ⟨more, hmore⟩ := propertyLines_prefix h ls
  have hcut := (carrying_eq larger ls).trans (carrying_eq catalog ls).symm
  rw [← hmore, List.append_assoc] at hcut
  exact ⟨more, List.append_cancel_left hcut⟩

/-- Where the value begins on a line, it began on that line or an earlier one. -/
theorem exists_valueLine? (h : catalog.IncludedIn larger .producer) {ls : List Line}
    (horder : (Line.carrying ls).Pairwise fun l m => l.number < m.number) {v' : Line}
    (hv' : valueLine? larger ls = some v') :
    ∃ v, valueLine? catalog ls = some v ∧ v.number ≤ v'.number := by
  rw [valueLine?_eq_head?] at hv'
  have hmem := (valueLines_suffix h ls).subset (List.mem_of_head? hv')
  obtain ⟨v, vs, hvs⟩ := List.exists_cons_of_ne_nil (List.ne_nil_of_mem hmem)
  refine ⟨v, by rw [valueLine?_eq_head?, hvs]; rfl, ?_⟩
  have hsorted := horder.sublist (List.dropWhile_sublist (isProperty catalog))
  rw [← valueLines, hvs, List.pairwise_cons] at hsorted
  rw [hvs] at hmem
  rcases List.mem_cons.mp hmem with rfl | hmem
  · exact Nat.le_refl _
  · exact Nat.le_of_lt (hsorted.1 v' hmem)

end ProducerBlock

/-! ## What is left of the value -/

/-- What is put in front of the text of a value makes the value longer at its front
and nowhere else. -/
theorem Template.trimmed?_append {x raw : Text} {origin start : Position}
    (hstart : start = origin.walk x) {value' : Template}
    (h : trimmed? raw start = some value') : ∃ value,
      trimmed? (x ++ raw) origin = some value ∧ value'.chunk.content <:+ value.chunk.content ∧
        value'.chunk.range.stop = value.chunk.range.stop := by
  subst hstart
  obtain ⟨hne, rfl⟩ := eq_of_trimmed? h
  refine ⟨_, if_neg (Text.trim_append_ne_nil x hne), Text.trim_suffix_trim_append x hne, ?_⟩
  show (origin.walk x).walk _ = origin.walk _
  rw [Text.leading_trim_append x hne]
  exact (Position.walk_append origin x _).symm

namespace Section

variable {t : Text} {kind : BlockKind} {opening : Line} {body : List Line}

/-- The value that begins on a line is the end of the one that would begin on an
earlier line. -/
theorem exists_longer (h : Section t kind opening body) {v v' : Line} (hv : v ∈ opening :: body)
    (hv' : v' ∈ opening :: body) (hle : v.number ≤ v'.number) {value' : Template}
    (hvalue' : ProducerBlock.valueFrom? (RawLine.ofText t)
      (Script.rangeOf (opening :: body)).stop v' = some value') :
    ∃ value, ProducerBlock.valueFrom? (RawLine.ofText t)
        (Script.rangeOf (opening :: body)).stop v = some value ∧
      value'.chunk.content <:+ value.chunk.content ∧
        value'.chunk.range.stop = value.chunk.range.stop := by
  have hstart : (⟨v.number, 0⟩ : Position) ≤ ⟨v'.number, 0⟩ := by
    rw [Position.le_iff]
    simp only
    omega
  obtain ⟨x, hraw, hwalk⟩ :=
    (h.holdsAt_rest hv).exists_append_right (h.holdsAt_rest hv') hstart rfl
  unfold ProducerBlock.valueFrom? at hvalue' ⊢
  rw [hraw]
  exact Template.trimmed?_append hwalk hvalue'

/-- Under a catalog that knows more, the block of a section gives way. -/
theorem givesWay {catalog larger : Catalog} (hincluded : catalog.IncludedIn larger .producer)
    (h : Section t kind opening body) :
    (Block.ofLines (RawLine.ofText t) catalog kind (opening :: body)).GivesWay
      (Block.ofLines (RawLine.ofText t) larger kind (opening :: body)) := by
  cases kind with
  | consumer => exact .consumer _
  | producer =>
    refine .producer rfl ((ProducerBlock.propertyLines_prefix hincluded body).map _) ?_
    intro value' hvalue'
    obtain ⟨v', hv', hfrom'⟩ := Option.bind_eq_some_iff.mp hvalue'
    obtain ⟨v, hv, hle⟩ := ProducerBlock.exists_valueLine? hincluded h.pairwise_body hv'
    obtain ⟨value, hfrom, hend⟩ := h.exists_longer
      (List.mem_cons_of_mem opening (ProducerBlock.mem_of_valueLine? hv))
      (List.mem_cons_of_mem opening (ProducerBlock.mem_of_valueLine? hv')) hle hfrom'
    exact ⟨value, Option.bind_eq_some_iff.mpr ⟨v, hv, hfrom⟩, hend⟩

end Section

/-! ## Two catalogs -/

/-- Read under two catalogs, the second of which knows every producer name that the
first one knows, a document has the same blocks, and in each the second catalog does
no more than move the line on which the value begins. -/
theorem Script.read_givesWay {catalog larger : Catalog}
    (h : catalog.IncludedIn larger .producer) (d : Document) :
    ∃ s s', read d catalog = .ok s ∧ read d larger = .ok s' ∧ s'.range = s.range ∧
      List.Forall₂ Block.GivesWay s.blocks s'.blocks := by
  refine ⟨_, _, read_eq d catalog, read_eq d larger, rfl, ?_⟩
  rw [ofLines, ofLines, List.forall₂_map_left_iff, List.forall₂_map_right_iff, List.forall₂_same]
  intro span hspan
  obtain ⟨opening, body, hslice, -, -, hsection⟩ :=
    BlockSpan.section_slice (List.prefix_refl d.lines) hspan
  rw [hslice]
  exact hsection.givesWay h

/-- One more name turns the line on which the value began into a property, and what
follows it up to the next line that is none; the consumer behind it stays. -/
theorem Script.read_givesWay_retries :
    let larger : Catalog :=
      { Catalog.standard with producer := ⟨"retries".toList, [], []⟩ :: Catalog.standard.producer }
    let d := Document.kafka []
      "PRODUCER\ntopic: a\n\u00a0retries: 3\r\n\nkey: k\n\n body \ntopic: b\n\n###\nCONSUMER g\nfrom: 0\n".toList
    let summary (b : Block) := (b.properties.map Property.name?, b.value?.map (·.chunk.content))
    Catalog.standard.IncludedIn larger .producer ∧
      ∃ s s', read d .standard = .ok s ∧ read d larger = .ok s' ∧
        s.blocks.map summary =
          [([some "topic".toList], some "retries: 3\r\n\nkey: k\n\n body \ntopic: b".toList),
            ([some "from".toList], none)] ∧
        s'.blocks.map summary =
          [([some "topic".toList, some "retries".toList, some "key".toList],
              some "body \ntopic: b".toList), ([some "from".toList], none)] ∧
        List.Forall₂ Block.GivesWay s.blocks s'.blocks := by
  intro larger d summary
  have hincluded : Catalog.standard.IncludedIn larger .producer :=
    Catalog.includedIn_of_subset (List.subset_cons_self _ _)
  obtain ⟨s, s', hread, hread', -, hblocks⟩ := read_givesWay hincluded d
  refine ⟨hincluded, s, s', hread, hread', ?_, ?_, hblocks⟩
  · have hsummary : (read d .standard).map (fun s => s.blocks.map summary) = .ok
        [([some "topic".toList], some "retries: 3\r\n\nkey: k\n\n body \ntopic: b".toList),
          ([some "from".toList], none)] := by decide +kernel
    rw [hread] at hsummary
    exact Except.ok.inj hsummary
  · have hsummary : (read d larger).map (fun s => s.blocks.map summary) = .ok
        [([some "topic".toList, some "retries".toList, some "key".toList],
          some "body \ntopic: b".toList), ([some "from".toList], none)] := by decide +kernel
    rw [hread'] at hsummary
    exact Except.ok.inj hsummary

end KafkaScript
