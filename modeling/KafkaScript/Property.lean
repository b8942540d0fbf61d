import KafkaScript.Catalog
import KafkaScript.Template

/-!
# Properties

A property is one line of a block, `key: value`. The first colon of the line is
the assigner. Spaces and tabs before the key do not belong to it; everything
between the two marks, and everything after the assigner, is kept as it stands.
Either side may be missing while the line is being typed: a line without an
assigner is a key alone, and one that holds only spaces is neither.
-/

namespace KafkaScript

/-- What separates the key of a property from its value. -/
def assignerMark : Char := ':'

/-- The name of the property whose value is a template. -/
def templateName : Text := "key".toList

/-- The value of a property: plain text, or a template. -/
inductive Chunk where
  | literal (text : TextChunk)
  | dynamic (template : Template)
deriving DecidableEq, Repr, Inhabited

namespace Chunk

/-- The text of the value with its place. -/
def text : Chunk → TextChunk
  | literal c => c
  | dynamic t => t.chunk

/-- The closed expressions of the value. Plain text has none. -/
def expressions : Chunk → List Expression
  | literal _ => []
  | dynamic t => t.expressions

/-- The template, if the value is one. -/
def template? : Chunk → Option Template
  | literal _ => none
  | dynamic t => some t

end Chunk

/-- One property. `assigner` is the character at which the assigner stands. -/
structure Property where
  key : Option TextChunk
  assigner : Option Nat
  value : Option Chunk
  range : Range
deriving DecidableEq, Repr, Inhabited

namespace Property

/-- A property with its range: from the key, or the value without one, to the
end of the value, or of the key without one, and the whole line if both are
missing. -/
def build (key : Option TextChunk) (assigner : Option Nat) (value : Option Chunk)
    (line : Range) : Property :=
  let start := key.map (·.range.start) <|> value.map (·.text.range.start)
  let stop := value.map (·.text.range.stop) <|> key.map (·.range.stop)
  let range := match start, stop with
    | some start, some stop => ⟨start, stop⟩
    | _, _ => line
  ⟨key, assigner, value, range⟩

/-- The key without the blanks around it. -/
def name? (p : Property) : Option Text :=
  p.key.map (·.content.trim)

/-- The value without the blanks around it. -/
def value? (p : Property) : Option Text :=
  p.value.map (·.text.content.trim)

/-- The range of the value without the blanks around it. -/
def valueRange? (p : Property) : Option Range :=
  p.value.map fun v =>
    let start := v.text.range.start
    let content := v.text.content
    Range.ofWidth ⟨start.line, start.character + content.leadingBlanks.length⟩ content.trim.length

/-- What the catalog says of the property, found by its name. -/
def definition? (p : Property) (c : Catalog) (kind : BlockKind) : Option PropertyDefinition :=
  p.name?.bind (c.definition? kind)

/-- What has been recognised of a line so far: where the chunk being read
began, whether that chunk is the value, and the finished key and assigner. -/
structure Progress where
  start : Option Nat
  withinValue : Bool
  key : Option TextChunk
  assigner : Option Nat
deriving DecidableEq, Repr, Inhabited

/-- Nothing has been recognised yet. -/
def Progress.empty : Progress := ⟨none, false, none, none⟩

/-- The characters of a line from one index up to another, as a chunk. -/
def chunkOf (content : Text) (line start stop : Nat) (kind : ChunkKind) : TextChunk :=
  ⟨(content.drop start).take (stop - start), ⟨⟨line, start⟩, ⟨line, stop⟩⟩, kind⟩

/-- Reads the character at index `i` of a line. A space or a tab does not begin
a chunk, the first colon ends the key, and anything else begins a chunk or
continues one. -/
def Progress.step (content : Text) (line : Nat) (s : Progress) (c : Char) (i : Nat) : Progress :=
  if (c = ' ' ∨ c = '\t') ∧ s.start = none then s
  else if c = assignerMark ∧ s.withinValue = false then
    { start := some (i + 1)
      withinValue := true
      key := s.start.map fun start => chunkOf content line start i .propertyKey
      assigner := some i }
  else { s with start := s.start <|> some i }

/-- A value is a template under the key `key`, and plain text otherwise. -/
def valueOf (key : Option TextChunk) (c : TextChunk) : Chunk :=
  if key.any (·.content.trim == templateName) then .dynamic (.ofChunk c) else .literal c

/-- Ends the line: the chunk being read runs to the end. -/
def Progress.finish (content : Text) (line : Nat) (s : Progress) : Property :=
  let whole : Range := Range.ofWidth ⟨line, 0⟩ content.length
  match s.start with
  | none => build s.key s.assigner none whole
  | some start =>
    if s.withinValue then
      let c := chunkOf content line start content.length .propertyValue
      build s.key s.assigner (some (valueOf s.key c)) whole
    else
      build (some (chunkOf content line start content.length .propertyKey)) s.assigner none whole

/-- Reads one line as a property. Every line is one. -/
def parse (content : Text) (line : Nat) : Property :=
  let step (s : Progress) (c : Char × Nat) := s.step content line c.1 c.2
  (content.zipIdx.foldl step Progress.empty).finish content line

/-- The property itself, unless a position in its template leaves 64 bits. That
takes a line break in the template, which no line of a document has. -/
def checked (p : Property) : Except Fault Property :=
  match p.value.bind Chunk.template? with
  | none => .ok p
  | some t => (Pairing.scan? t.chunk.content t.chunk.range.start).map fun _ => p

/-- What stands before the assigner of a line, without the blanks around it. -/
def nameOfLine? (content : Text) : Option Text :=
  (content.splitFirst assignerMark).map fun (name, _) => name.trim

end Property

end KafkaScript
