import CobolText.Origin.Map
import CobolText.Text.Blank
import CobolText.Text.Slice

/-!
# Traced text

Text that knows where its characters came from.  A `Fragment` is a piece of text under
construction, with extents counted from its own beginning; fragments are joined end to end, and
`TracedText.assemble` makes the finished text with its origin map.
-/

namespace CobolText

/-- A piece of output text and the extents inside it, counted from its first character. -/
structure Fragment where
  text : List Char
  extents : List Extent
deriving DecidableEq, Repr

/-- A finished text and its origin map. -/
structure TracedText where
  text : List Char
  map : OriginMap

namespace Fragment

/-- The fragment without any text. -/
def empty : Fragment :=
  ⟨[], []⟩

/-- Text that was made up here and has no origin. -/
def synthetic (text : List Char) : Fragment :=
  ⟨text, []⟩

/-- Text that was read from `position` onwards. -/
def copied (text : List Char) (position : Position) (marks : Marks) : Fragment :=
  if text.isEmpty then empty else ⟨text, [⟨0, text.length, position, marks⟩]⟩

/-- What a replacement rule writes: all of it stands for the first character it replaced, and
has no origin if that character had none. -/
def replacement (text : List Char) (replaced : Option Extent) (position : Option Position) :
    Fragment :=
  match replaced, position with
  | some e, some p => copied text p { replaced := true, inclusions := e.marks.inclusions }
  | _, _ => synthetic text

/-- One fragment after another. -/
def append (a b : Fragment) : Fragment :=
  ⟨a.text ++ b.text, a.extents ++ b.extents.map (·.shift a.text.length)⟩

/-- The extents of fragments laid end to end from `offset` on. -/
def extentsFrom (offset : Nat) : List Fragment → List Extent
  | [] => []
  | f :: fs => f.extents.map (·.shift offset) ++ extentsFrom (offset + f.text.length) fs

/-- Fragments laid end to end. -/
def join (fs : List Fragment) : Fragment :=
  ⟨fs.flatMap (·.text), extentsFrom 0 fs⟩

@[simp] theorem text_append (a b : Fragment) : (a.append b).text = a.text ++ b.text := rfl

/-- Where a sequence of fragments starts only moves its extents. -/
theorem extentsFrom_eq_shift (fs : List Fragment) (offset : Nat) :
    extentsFrom offset fs = (extentsFrom 0 fs).map (·.shift offset) := by
  induction fs generalizing offset with
  | nil => rfl
  | cons f fs ih =>
    rw [extentsFrom, extentsFrom, ih (offset + f.text.length), ih (0 + f.text.length)]
    simp [Int.add_comm]

/-- Joining is repeated appending. -/
theorem join_cons (f : Fragment) (fs : List Fragment) : join (f :: fs) = f.append (join fs) := by
  simp only [join, append, extentsFrom, List.flatMap_cons, Fragment.mk.injEq, true_and]
  rw [extentsFrom_eq_shift fs (0 + f.text.length)]
  simp

end Fragment

namespace TracedText

/-- A text with the given extents, put in order. -/
def ofExtents (text : List Char) (extents : List Extent) : TracedText :=
  ⟨text, OriginMap.ofList extents⟩

/-- The text that fragments laid end to end make up. -/
def assemble (fs : List Fragment) : TracedText :=
  ofExtents (Fragment.join fs).text (Fragment.join fs).extents

/-- The extents in order. -/
def extents (t : TracedText) : List Extent :=
  t.map.toList

/-- The intervals that hold comments and comment entries. -/
def comments (t : TracedText) : List (Int × Int) :=
  (t.extents.filter Extent.isComment).map fun e => (e.start, e.stop)

/-- The part of a text from `start` to `stop` with its origins, as seen through the given
copybooks. -/
def cut (t : TracedText) (start stop : Int) (inclusions : List String) : Fragment :=
  if start < stop then
    ⟨Text.slice t.text start stop,
      (t.map.between start stop).filterMap fun e =>
        (e.clip? start stop).map fun c => (c.shift (-start)).within inclusions⟩
  else Fragment.empty

/-- All of a text with its origins. -/
def whole (t : TracedText) (inclusions : List String) : Fragment :=
  t.cut 0 t.text.length inclusions

@[simp] theorem text_assemble (fs : List Fragment) : (assemble fs).text = fs.flatMap (·.text) :=
  rfl

end TracedText

end CobolText
