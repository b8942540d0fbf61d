import KafkaScript.Block

/-!
# The body of a block

The lines of a block after its opening line. Every line of a consumer block
that carries something is a property. In a producer block, known properties
come first; the first line that carries something and is not a known property
begins the value, which takes everything up to the end of the block, so that
no later line is read as a property.
-/

namespace KafkaScript

namespace Template

/-- The text without the blanks around it, as the value of a producer block.
`origin` is the position at which the untrimmed text begins; a cursor walks to
the two ends of the trimmed text. A blank text is no value. -/
def ofRaw? (raw : Text) (origin : Position) : Except Fault (Option Template) :=
  let content := raw.trim
  if content.isEmpty then .ok none
  else do
    let leading := raw.utf8Size - raw.trimStart.utf8Size
    let first ← (Cursor.start raw origin).seek leading
    let last ← first.seek (leading + content.utf8Size)
    let range ← Range.between first.pos last.pos
    return some (.ofChunk ⟨content, range, .producerValue⟩)

end Template

namespace ProducerBlock

/-- Whether a line is a known property of a producer block. -/
def isProperty (catalog : Catalog) (l : Line) : Bool :=
  (Property.nameOfLine? l.content).any (catalog.isKnown .producer)

/-- Reads the lines after the opening line: the properties and the value. The
value is taken from `source`, the lines of the whole document. -/
def readBody (source : List RawLine) (catalog : Catalog) (stop : Position) :
    List Line → Except Fault (List Property × Option Template)
  | [] => .ok ([], none)
  | l :: ls =>
    if l.isIgnored then readBody source catalog stop ls
    else if isProperty catalog l then do
      let (properties, value) ← readBody source catalog stop ls
      return (Property.parse l.content l.number :: properties, value)
    else do
      let origin : Position := ⟨l.number, 0⟩
      let range ← Range.between origin stop
      let value ← Template.ofRaw? (RawLine.textBetween source range.start range.stop) origin
      return ([], value)

/-- Reads a producer block from its lines, the opening line first. -/
def read (source : List RawLine) (catalog : Catalog) (lines : List Line) (range : Range) :
    Except Fault ProducerBlock := do
  let (properties, value) ← readBody source catalog range.stop (lines.drop 1)
  return ⟨range, properties, value⟩

end ProducerBlock

namespace ConsumerBlock

/-- The group that an opening line names: what follows the keyword, without the
blanks around it. The name may be empty. -/
def groupIdOf (opening : Line) : TextChunk :=
  let keyword := BlockKind.consumer.keyword
  let rest := (Text.afterBytes? keyword.utf8Size opening.content).getD []
  let start : Position := ⟨opening.number, keyword.length + rest.leadingBlanks.length⟩
  ⟨rest.trim, Range.ofWidth start rest.trim.length, .consumerGroupId⟩

/-- Reads a consumer block from its lines, the opening line first. -/
def read (lines : List Line) (range : Range) : ConsumerBlock :=
  let groupId := match lines with
    | opening :: _ => groupIdOf opening
    | [] => ⟨[], ⟨range.start, range.start⟩, .consumerGroupId⟩
  let carrying := (lines.drop 1).filter fun l => !l.isIgnored
  ⟨range, groupId, carrying.map fun l => Property.parse l.content l.number⟩

end ConsumerBlock

end KafkaScript
