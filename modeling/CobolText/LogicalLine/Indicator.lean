import CobolText.LogicalLine.Basic
import CobolText.Text.Delimiter

/-!
# Line indicators

The kind of a physical line follows from its indicator area, or from how its content starts.
-/

namespace CobolText

namespace PhysicalLine

/-- The mark that starts a compiler directive. -/
def directiveMark : List Char :=
  ['>', '>']

/-- The mark that starts a debugging line in free format. -/
def debugMark : List Char :=
  ['>', '>', 'D']

/-- The kind of a line without an indicator area. -/
def kindOfContent (content : List Char) : LineKind :=
  let start := Text.upper (Text.trimLeft content)
  if Text.commentMark.isPrefixOf start then .comment
  else if start == debugMark || (debugMark ++ [' ']).isPrefixOf start then .debug
  else if directiveMark.isPrefixOf start then .directive
  else .normal

/-- Whether an indicator area says nothing. -/
def isBlankIndicator (indicator : List Char) : Bool :=
  indicator == [] || indicator == [' '] || indicator == ['\t']

/-- The kind that an indicator of the dialect stands for; if it is in several of its sets, the
first in this order. -/
def kindOfIndicator? (d : Dialect) (indicator : Key) : Option LineKind :=
  if d.commentIndicators.contains indicator then some .comment
  else if d.pageEjectIndicators.contains indicator then some .pageEject
  else if d.continuationIndicators.contains indicator then some .continuation
  else if d.debugIndicators.contains indicator then some .debug
  else if d.directiveIndicators.contains indicator then some .directive
  else none

/-- The kind of a line with a blank indicator. -/
def kindOfPlain (d : Dialect) (content : List Char) : LineKind :=
  let start := Text.trimLeft content
  if directiveMark.isPrefixOf start then .directive
  else if Text.commentMark.isPrefixOf start && d.floatingComments.isSet then .comment
  else .normal

/-- The kind of a line, and a warning if its indicator is unknown; such a line is taken as a
normal one. -/
def classify (d : Dialect) (l : PhysicalLine) : LineKind × Option Diagnostic :=
  if l.format == .free then (kindOfContent l.content, none)
  else if isBlankIndicator l.indicator then (kindOfPlain d l.content, none)
  else
    match kindOfIndicator? d (String.ofList l.indicator) with
    | some kind => (kind, none)
    | none => (.normal, some ⟨.unknownIndicator l.indicator, l.position (-1)⟩)

/-- The content of a line as the start of a logical line.  A debugging line in free format has
its code after the mark. -/
def firstSegment (l : PhysicalLine) (kind : LineKind) : Segment :=
  let whole : Segment := ⟨l, l.column, l.content⟩
  if l.format == .free && kind == .debug then
    whole.drop ((l.content.takeWhile Text.isBlank).length + debugMark.length)
  else whole

end PhysicalLine

end CobolText
