import CobolText.Yaml.Character

/-!
# Plain scalars

Text without quotes.  It may run over several lines: a line break between two words counts as a
space, and of more line breaks all but the first are kept.
-/

namespace CobolText.Yaml

/-- What lies between the last word of a plain scalar and a place after it. -/
inductive PlainGap where
  /-- Nothing: the place is inside a word or right after it. -/
  | inside
  /-- Some spaces. -/
  | spaces (count : Nat)
  /-- A line break, more of them, and some spaces. -/
  | lines (first : Char) (more : List Char) (column : Nat)
deriving DecidableEq, Repr

namespace PlainGap

/-- What a gap stands for if a word follows. -/
def text : PlainGap → List Char
  | .inside => []
  | .spaces count => List.replicate count ' '
  | .lines first more _ => if first != '\n' then first :: more else if more.isEmpty then [' '] else more

/-- Whether a gap has a line break. -/
def crossesLine : PlainGap → Bool
  | .lines _ _ _ => true
  | _ => false

/-- The gap with one more space. -/
def addSpace : PlainGap → PlainGap
  | .inside => .spaces 1
  | .spaces count => .spaces (count + 1)
  | .lines first more column => .lines first more (column + 1)

/-- The gap with one more line break. -/
def addBreak (c : Char) : PlainGap → PlainGap
  | .lines first more _ => .lines first (more ++ [keptBreak c]) 0
  | _ => .lines (keptBreak c) [] 0

/-- Whether a scalar ends at a character after a gap: at a comment, or on a line that is not
indented enough. -/
def endsAt (flow : Bool) (indent : Int) (c : Char) : PlainGap → Bool
  | .inside => false
  | .spaces _ => c == '#'
  | .lines _ _ column => c == '#' || (!flow && column < indent)

end PlainGap

/-- Whether a word of a plain scalar ends in front of `c`, which `rest` follows. -/
def endsWord (flow : Bool) (c : Char) (rest : List Char) : Bool :=
  isGap c || isBreak c ||
    (c == ':' && (atGap rest ||
      (flow && (rest.take 1).any fun d => ",[]\x7b\x7d".toList.contains d))) ||
    (flow && ",?[]\x7b\x7d".toList.contains c)

/-- A plain scalar as it is read. -/
structure PlainText where
  text : List Char
  rest : List Char
  /-- Whether the rest starts on a later line than the scalar ends. -/
  crossesLine : Bool
deriving DecidableEq, Repr

/-- Reads a plain scalar on after a gap.  In block style its further lines must be indented by
`indent` columns. -/
def plainFrom (flow : Bool) (indent : Int) : PlainGap → List Char → PlainText
  | gap, [] => ⟨[], [], gap.crossesLine⟩
  | gap, c :: rest =>
    if c == ' ' then plainFrom flow indent gap.addSpace rest
    else if isBreak c then
      if atDocumentMark rest then ⟨[], rest, true⟩
      else plainFrom flow indent (gap.addBreak c) rest
    else if gap.endsAt flow indent c || endsWord flow c rest then ⟨[], c :: rest, gap.crossesLine⟩
    else
      let after := plainFrom flow indent .inside rest
      { after with text := gap.text ++ c :: after.text }

/-- Reads a plain scalar. -/
def plainText (flow : Bool) (indent : Int) (s : List Char) : PlainText :=
  plainFrom flow indent .inside s

end CobolText.Yaml
