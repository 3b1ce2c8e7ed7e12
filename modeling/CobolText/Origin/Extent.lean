/-!
# Extents

An extent is a run of output characters together with the place in a source file that it was read
from.  Offsets into the output start at 0 and an extent reaches up to, not including, `stop`;
lines and columns of source files start at 1.
-/

namespace CobolText

/-- A place in a source file. -/
structure Position where
  file : String
  line : Int
  column : Int
deriving DecidableEq, Repr

/-- The usual way to write a position: file, line and column divided by colons. -/
def Position.render (p : Position) : String :=
  p.file ++ ":" ++ toString p.line ++ ":" ++ toString p.column

/-- How the characters of an extent came into the output. -/
structure Marks where
  /-- Joined from a continuation line. -/
  continuation : Bool := false
  /-- Text of a comment line. -/
  comment : Bool := false
  /-- Prose of a comment entry. -/
  commentEntry : Bool := false
  /-- Written by a replacement rule. -/
  replaced : Bool := false
  /-- Names of the copybooks the text came through, outermost first. -/
  inclusions : List String := []
deriving DecidableEq, Repr

/-- A run of output characters and where it came from. -/
structure Extent where
  start : Int
  stop : Int
  position : Position
  marks : Marks
deriving DecidableEq, Repr

namespace Extent

/-- How many characters the extent holds. -/
def length (e : Extent) : Int :=
  e.stop - e.start

/-- Whether the text came from a copybook. -/
def fromCopybook (e : Extent) : Bool :=
  !e.marks.inclusions.isEmpty

/-- Whether the text is a comment or a comment entry. -/
def isComment (e : Extent) : Bool :=
  e.marks.comment || e.marks.commentEntry

/-- Whether the extent holds the output character at `offset`. -/
def covers (e : Extent) (offset : Int) : Bool :=
  e.start ≤ offset && offset < e.stop

/-- The source position of the output character at `offset`.  Replacement text stands as a whole
for the start of what it replaced; all other text advances column by column. -/
def positionAt (e : Extent) (offset : Int) : Position :=
  if e.marks.replaced then e.position
  else { e.position with column := e.position.column + (offset - e.start) }

/-- The part of the extent inside the interval from `start` to `stop`, if there is any. -/
def clip? (e : Extent) (start stop : Int) : Option Extent :=
  let lo := max e.start start
  let hi := min e.stop stop
  if lo < hi then some { e with start := lo, stop := hi, position := e.positionAt lo } else none

/-- The extent moved along the output. -/
def shift (e : Extent) (delta : Int) : Extent :=
  { e with start := e.start + delta, stop := e.stop + delta }

/-- The extent as seen through further copybooks around it. -/
def within (e : Extent) (inclusions : List String) : Extent :=
  { e with marks := { e.marks with inclusions := inclusions ++ e.marks.inclusions } }

@[simp] theorem shift_zero (e : Extent) : e.shift 0 = e := by
  simp [shift]

@[simp] theorem shift_shift (e : Extent) (a b : Int) : (e.shift a).shift b = e.shift (a + b) := by
  simp [shift, Int.add_assoc]

/-- Moving an extent moves its positions with it. -/
theorem positionAt_shift (e : Extent) (delta offset : Int) :
    (e.shift delta).positionAt (offset + delta) = e.positionAt offset := by
  have h : offset + delta - (e.start + delta) = offset - e.start := by omega
  simp [positionAt, shift, h]

/-- A clipped extent gives every character the position it had. -/
theorem positionAt_clip? {e c : Extent} {start stop : Int} (h : e.clip? start stop = some c)
    (offset : Int) : c.positionAt offset = e.positionAt offset := by
  simp only [clip?] at h
  split at h
  · cases h
    by_cases hr : e.marks.replaced = true
    · simp [positionAt, hr]
    · simp only [positionAt, hr, Bool.false_eq_true, if_false, Position.mk.injEq, true_and]
      omega
  · simp at h

end Extent

end CobolText
