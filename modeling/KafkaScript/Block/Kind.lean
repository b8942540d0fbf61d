import KafkaScript.Text.Blank
import KafkaScript.Text.Document

/-!
# Kinds of blocks and of lines

A script is made of producer blocks and consumer blocks. Each begins with its
keyword at the start of a line. What a line means depends on the block that it
stands in; the facts here depend on the line alone.
-/

namespace KafkaScript

/-- The two kinds of blocks. -/
inductive BlockKind where
  | producer
  | consumer
deriving DecidableEq, Repr, Inhabited

namespace BlockKind

/-- The word that opens a block of the kind. -/
def keyword : BlockKind → Text
  | producer => "PRODUCER".toList
  | consumer => "CONSUMER".toList

/-- The name of the kind in lower case. -/
def name : BlockKind → Text
  | producer => "producer".toList
  | consumer => "consumer".toList

/-- The kind of block that a line opens: the keyword stands at the very start,
and anything may follow it. -/
def openedBy? (t : Text) : Option BlockKind :=
  if producer.keyword.isPrefixOf t then some producer
  else if consumer.keyword.isPrefixOf t then some consumer
  else none

end BlockKind

/-- What a separator line begins with. -/
def separatorMark : Text := ['#', '#', '#']

/-- What a comment line begins with, after its leading blanks. -/
def commentMark : Text := ['-', '-']

namespace Line

/-- The line holds nothing but white space. -/
def isBlank (l : Line) : Bool :=
  l.content.trimStart.isEmpty

/-- The line is a comment. -/
def isComment (l : Line) : Bool :=
  commentMark.isPrefixOf l.content.trimStart

/-- Blank and comment lines carry nothing inside a block. -/
def isIgnored (l : Line) : Bool :=
  l.isBlank || l.isComment

/-- The line separates blocks. -/
def isSeparator (l : Line) : Bool :=
  separatorMark.isPrefixOf l.content

/-- The kind of block that the line opens. -/
def opener? (l : Line) : Option BlockKind :=
  BlockKind.openedBy? l.content

end Line

end KafkaScript
