import CobolText.Origin.Bisection
import CobolText.Origin.Extent

/-!
# Origin maps

The extents of one output text in ascending order, and the ways to ask them where a character
came from.  Characters outside every extent have no origin.
-/

namespace CobolText

/-- The extents of a text, in order of their starts. -/
structure OriginMap where
  extents : Array Extent
  ascending : extents.toList.Pairwise fun a b => a.start ≤ b.start

namespace OriginMap

/-- The map of a list of extents; those with the same start keep their order. -/
def ofList (extents : List Extent) : OriginMap where
  extents := (extents.mergeSort fun a b => decide (a.start ≤ b.start)).toArray
  ascending := by
    have h := @List.pairwise_mergeSort _ (fun a b : Extent => decide (a.start ≤ b.start))
      (fun a b c => by simp; omega) (fun a b => by simp; omega) extents
    simpa using h

/-- The extents as a list. -/
def toList (m : OriginMap) : List Extent :=
  m.extents.toList

/-- The extent that holds the output character at `offset`: the last one to start at or before
it, if that reaches so far. -/
def extentAt? (m : OriginMap) (offset : Int) : Option Extent :=
  match firstAbove m.extents Extent.start offset with
  | 0 => none
  | i + 1 => m.extents[i]?.filter fun e => e.covers offset

/-- The source position of the output character at `offset`. -/
def positionAt? (m : OriginMap) (offset : Int) : Option Position :=
  (m.extentAt? offset).map fun e => e.positionAt offset

/-- The extents that meet the interval from `start` to `stop`, in order: those from the last one
to start at or before `start` up to the first one to start at or after `stop`, as far as they
reach past `start`. -/
def between (m : OriginMap) (start stop : Int) : List Extent :=
  let first := firstAbove m.extents Extent.start start - 1
  let last := firstAbove m.extents Extent.start (stop - 1)
  (m.extents.extract first last).toList.filter fun e => start < e.stop

/-- The source position of the first character with an origin in the interval. -/
def firstPosition? (m : OriginMap) (start stop : Int) : Option Position :=
  (m.between start stop).head?.map fun e => e.positionAt (max e.start start)

end OriginMap

end CobolText
