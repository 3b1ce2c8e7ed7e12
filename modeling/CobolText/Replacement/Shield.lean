import CobolText.Origin.TracedText
import CobolText.Token.Lexer

/-!
# Shielded text

Replacement never cuts into a literal or touches a comment.  The shield of a text is the list of
its literals and comments, where those that overlap count as one.
-/

namespace CobolText

/-- An interval that holds a literal or a comment. -/
structure ShieldRegion where
  start : Int
  stop : Int
  isComment : Bool
deriving DecidableEq, Repr

/-- The shielded intervals of a text, in order. -/
structure Shield where
  regions : Array ShieldRegion

namespace ShieldRegion

/-- The order of intervals: by start, then by stop, literals before comments. -/
def le (a b : ShieldRegion) : Bool :=
  decide (a.start < b.start) ||
    (a.start == b.start &&
      (decide (a.stop < b.stop) || (a.stop == b.stop && (!a.isComment || b.isComment))))

/-- The interval that a token shields. -/
def ofToken? (t : Token) : Option ShieldRegion :=
  match t.kind with
  | .literal => some ⟨t.start, t.stop, false⟩
  | .comment => some ⟨t.start, t.stop, true⟩
  | _ => none

/-- Intervals in order, joined where they overlap; `current` comes first and takes in those that
start before its end. -/
def mergeInto (current : ShieldRegion) : List ShieldRegion → List ShieldRegion
  | [] => [current]
  | r :: rs =>
    if r.start < current.stop then
      mergeInto ⟨current.start, max current.stop r.stop, current.isComment || r.isComment⟩ rs
    else current :: mergeInto r rs

/-- Intervals in order, joined where they overlap. -/
def merge : List ShieldRegion → List ShieldRegion
  | [] => []
  | r :: rs => mergeInto r rs

end ShieldRegion

namespace Shield

/-- The literals and comments of a text: those its tokens show, and those its origins tell. -/
def ofText (t : TracedText) : Shield :=
  let lexical := (Token.tokens false 0 t.text).filterMap ShieldRegion.ofToken?
  let marked := t.comments.map fun (start, stop) => ⟨start, stop, true⟩
  ⟨(ShieldRegion.merge ((lexical ++ marked).mergeSort ShieldRegion.le)).toArray⟩

/-- The interval that holds an offset. -/
def regionAt? (s : Shield) (offset : Int) : Option ShieldRegion :=
  match firstAbove s.regions ShieldRegion.start offset with
  | 0 => none
  | i + 1 => s.regions[i]?.filter fun r => offset < r.stop

/-- Whether the text from `start` to `stop` may be replaced: it must not end inside a shielded
interval, and no comment may start after its first character. -/
def allows (s : Shield) (start stop : Int) : Bool :=
  let cutsOff := (s.regionAt? (stop - 1)).any fun r => stop < r.stop
  let first := firstAbove s.regions ShieldRegion.start start
  let last := firstAbove s.regions ShieldRegion.start (stop - 1)
  !cutsOff && !((s.regions.toList.take last).drop first).any ShieldRegion.isComment

end Shield

end CobolText
