import CobolText.LogicalLine.Basic
import CobolText.Origin.TracedText

/-!
# Lines written out

Logical lines become one text: every line starts with as many spaces as there are columns in
front of the content area, then come its mark, its content and a line feed.  Each segment of the
content is an extent of its own.
-/

namespace CobolText

namespace LogicalLine

/-- A segment of a line as text with its origin. -/
def segmentFragment (l : LogicalLine) (s : Segment) (continued : Bool) : Fragment :=
  Fragment.copied s.text s.position
    { continuation := continued, comment := l.commented, commentEntry := l.commentEntry }

/-- The segments of a line as text; those from another physical line than the first segment are
continuations. -/
def segmentFragments (l : LogicalLine) : List Fragment :=
  match l.segments with
  | [] => []
  | s :: rest =>
    l.segmentFragment s false ::
      rest.map fun r => l.segmentFragment r (r.source.number != s.source.number)

/-- A line written out. -/
def fragments (indent : Nat) (l : LogicalLine) : List Fragment :=
  Fragment.synthetic (Text.spaces indent ++ l.marker) ::
    (l.segmentFragments ++ [Fragment.synthetic ['\n']])

/-- All lines written out. -/
def write (d : Dialect) (format : SourceFormat) (lines : List LogicalLine) : TracedText :=
  TracedText.assemble (lines.flatMap (fragments (d.layout format).indentWidth))

end LogicalLine

end CobolText
