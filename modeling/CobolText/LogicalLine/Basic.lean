import CobolText.PhysicalLine

/-!
# Logical lines

A logical line is one physical line, or several that a continuation joins.  Its content is held
in segments, each of which knows the physical line and the column it was taken from.
-/

namespace CobolText

/-- What the indicator of a line says about it. -/
inductive LineKind where
  | normal
  | comment
  | continuation
  | debug
  | pageEject
  | directive
deriving DecidableEq, Repr

namespace LineKind

/-- Lines that are written out as comments and never go on in a further line. -/
def isCommentLike : LineKind → Bool
  | .comment | .pageEject | .directive => true
  | _ => false

/-- Lines that hold program text, and that a continuation may follow. -/
def isCode : LineKind → Bool
  | .normal | .debug => true
  | _ => false

end LineKind

/-- Content taken from one physical line. -/
structure Segment where
  source : PhysicalLine
  column : Int
  text : List Char
deriving DecidableEq, Repr

namespace Segment

/-- Where the segment starts. -/
def position (s : Segment) : Position :=
  ⟨s.source.file, s.source.number, s.column⟩

/-- The first `n` characters. -/
def take (s : Segment) (n : Nat) : Segment :=
  { s with text := s.text.take n }

/-- All but the first `n` characters. -/
def drop (s : Segment) (n : Nat) : Segment :=
  { s with column := s.column + n, text := s.text.drop n }

end Segment

/-- A line of the program after continuations are joined. -/
structure LogicalLine where
  kind : LineKind
  segments : List Segment
  /-- The physical line it starts with. -/
  first : PhysicalLine
  /-- The physical lines joined to it. -/
  further : List PhysicalLine
  /-- Whether the content is prose of a comment entry. -/
  commentEntry : Bool
  /-- Whether the line is written out as a comment. -/
  commented : Bool
  /-- Text written in front of the content. -/
  marker : List Char
deriving DecidableEq, Repr

namespace LogicalLine

/-- A line of one segment that nothing is known about yet. -/
def single (kind : LineKind) (segment : Segment) : LogicalLine where
  kind := kind
  segments := [segment]
  first := segment.source
  further := []
  commentEntry := false
  commented := false
  marker := []

/-- The text of the line. -/
def content (l : LogicalLine) : List Char :=
  l.segments.flatMap (·.text)

/-- The physical lines it is made of, in order. -/
def provenance (l : LogicalLine) : List PhysicalLine :=
  l.first :: l.further

/-- Divides segments at an offset, where `consumed` characters came before them.  A segment that
ends at the offset belongs to the first part. -/
def divideSegments (offset : Int) (consumed : Nat) : List Segment → List Segment × List Segment
  | [] => ([], [])
  | s :: rest =>
    let (before, after) := divideSegments offset (consumed + s.text.length) rest
    if consumed + s.text.length ≤ offset then (s :: before, after)
    else if offset ≤ consumed then (before, s :: after)
    else
      let n := (offset - consumed).toNat
      (s.take n :: before, s.drop n :: after)

/-- The line with other segments, made of the physical lines that these come from; without any
segment it keeps its first physical line. -/
def withSegments (l : LogicalLine) (segments : List Segment) : LogicalLine :=
  match (segments.map (·.source)).eraseDups with
  | [] => { l with segments, further := [] }
  | first :: further => { l with segments, first, further }

/-- Divides a line at an offset into its content. -/
def divide (l : LogicalLine) (offset : Int) : LogicalLine × LogicalLine :=
  let (before, after) := divideSegments offset 0 l.segments
  (l.withSegments before, l.withSegments after)

end LogicalLine

end CobolText
