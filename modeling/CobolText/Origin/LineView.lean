import CobolText.Origin.TracedText

/-!
# Output lines

Lookup by line and column of the output, and the view of an origin map line by line.
-/

namespace CobolText

/-- A line number that the output does not have. -/
structure NoSuchLine where
  line : Int
  count : Nat
deriving DecidableEq, Repr

/-- The report on a missing line. -/
def NoSuchLine.message (e : NoSuchLine) : String :=
  "Output line " ++ toString e.line ++ " out of range (1-" ++ toString e.count ++ ")"

/-- Where an output line came from. -/
structure LineOrigin where
  outputLine : Nat
  line : Int
  file : String
  fromCopybook : Bool
deriving DecidableEq, Repr

namespace TracedText

/-- One character more in front of the lines of a text. -/
def lineStep (c : Char) (lines : List (List Char)) : List (List Char) :=
  if c == '\n' then [c] :: lines
  else match lines with
    | [] => [[c]]
    | line :: rest => (c :: line) :: rest

/-- The lines of a text, each with its line end; a final line end starts an empty line. -/
def linesOf (text : List Char) : List (List Char) :=
  text.foldr lineStep [[]]

/-- Lines laid end to end from `offset` on, each with the offset it starts at. -/
def placeLines (offset : Nat) : List (List Char) → List (Nat × List Char)
  | [] => []
  | line :: rest => (offset, line) :: placeLines (offset + line.length) rest

/-- The lines of a text, each with the offset it starts at. -/
def placedLines (text : List Char) : List (Nat × List Char) :=
  placeLines 0 (linesOf text)

/-- The offsets at which the lines of a text start. -/
def lineStarts (text : List Char) : List Nat :=
  (placedLines text).map (·.1)

/-- The offset of a column of an output line.  The column is not held against the length of the
line. -/
def offsetOf (t : TracedText) (line column : Int) : Except NoSuchLine Int :=
  let starts := lineStarts t.text
  if 1 ≤ line then
    match starts[(line - 1).toNat]? with
    | some start => .ok (start + column - 1)
    | none => .error ⟨line, starts.length⟩
  else .error ⟨line, starts.length⟩

/-- The source position of a column of an output line. -/
def positionOf (t : TracedText) (line column : Int) : Except NoSuchLine (Option Position) :=
  (t.offsetOf line column).map t.map.positionAt?

/-- The first extent among `extents` with a character that is not blank on a line that starts at
`start`, and the offset of that character. -/
def firstInk? (start : Nat) (line : List Char) : List Extent → Option (Extent × Int)
  | [] => none
  | e :: es =>
    let lo := max e.start start
    let chunk := Text.slice line (lo - start) (min (e.stop - start) line.length)
    if Text.isBlankText chunk then firstInk? start line es
    else some (e, lo + (chunk.length - (Text.trimLeft chunk).length : Nat))

/-- The origin of an output line that starts at `start`: that of its first character with an
origin that is not blank, or of its first character with an origin if all of them are blank. -/
def lineOrigin? (t : TracedText) (number start : Nat) (line : List Char) : Option LineOrigin :=
  let extents := t.map.between start (start + line.length)
  match extents with
  | [] => none
  | e :: _ =>
    let (found, offset) := (firstInk? start line extents).getD (e, max e.start start)
    let position := found.positionAt offset
    some ⟨number, position.line, position.file, found.fromCopybook⟩

/-- The origins of all output lines that have one, in order. -/
def lineOrigins (t : TracedText) : List LineOrigin :=
  (placedLines t.text).zipIdx.filterMap fun ((start, line), i) =>
    t.lineOrigin? (i + 1) start line

end TracedText

end CobolText
