import CobolText.LogicalLine.Indicator

/-!
# Continuation lines

A continuation line is joined to the line before it.  If the text so far leaves a literal open,
it is filled up with spaces to the right margin and the quote that starts the continuation is
dropped; otherwise its trailing blanks go and the continuation follows directly.
-/

namespace CobolText

/-- The quote of the literal that is open at the end of a text, where `quote` is the one open at
its start.  With floating comments, a comment ends the search. -/
def openQuoteAfter (floating : Bool) : Option Char → List Char → Option Char
  | quote, [] => quote
  | some q, c :: cs => openQuoteAfter floating (if c == q then none else some q) cs
  | none, c :: cs =>
    if Text.isQuote c then openQuoteAfter floating (some c) cs
    else if floating && Text.commentMark.isPrefixOf (c :: cs) then none
    else openQuoteAfter floating none cs

/-- The quote of the literal that is open at the end of a text. -/
def openQuote (floating : Bool) (text : List Char) : Option Char :=
  openQuoteAfter floating none text

namespace LogicalLine

/-- Segments in reverse without the blanks at the end of their text. -/
def trimReversed : List Segment → List Segment
  | [] => []
  | s :: rest =>
    let text := Text.trimRight s.text
    if text.isEmpty then trimReversed rest else { s with text } :: rest

/-- Segments without the blanks at the end of their text. -/
def trimSegments (segments : List Segment) : List Segment :=
  (trimReversed segments.reverse).reverse

/-- Segments with the last one filled up to the right margin. -/
def padSegments (margin : Option Int) (segments : List Segment) : List Segment :=
  match margin, segments.getLast? with
  | some m, some last =>
    let missing := m - (last.column + last.text.length - 1)
    segments.dropLast ++ [{ last with text := last.text ++ Text.spaces missing.toNat }]
  | _, _ => segments

/-- The content of a continuation line: without the blanks in front, and without its first
character if that is a quote and a literal is open. -/
def continuationSegment (line : PhysicalLine) (literalOpen : Bool) : Segment :=
  let text := Text.trimLeft line.content
  let whole : Segment := ⟨line, line.column + (line.content.length - text.length : Nat), text⟩
  if literalOpen && (text.take 1).any Text.isQuote then whole.drop 1 else whole

/-- Joins a continuation line to a logical line. -/
def extend (d : Dialect) (l : LogicalLine) (line : PhysicalLine) : LogicalLine :=
  let literalOpen := (openQuote (d.hasFloatingComments line.format) l.content).isSome
  let kept :=
    if !literalOpen then trimSegments l.segments
    else if d.padContinuedLiterals.isSet then padSegments (d.layout line.format).margin? l.segments
    else l.segments
  { l with
    segments := kept ++ [continuationSegment line literalOpen]
    further := l.further ++ [line] }

/-- Whether the line that was joined last brought any content. -/
def lastIsBlank (l : LogicalLine) : Bool :=
  match l.segments.getLast? with
  | some s => Text.isBlankText s.text
  | none => true

/-- Joins physical lines to logical lines, the first of which is `current` so far, and collects
warnings.  A continuation that has no line of code to follow is taken as a normal line. -/
def gather (d : Dialect) (current : LogicalLine) :
    List PhysicalLine → List LogicalLine × List Diagnostic
  | [] => ([current], [])
  | line :: lines =>
    let (kind, unknown) := line.classify d
    if kind == .continuation then
      if current.kind.isCode then
        let joined := current.extend d line
        let (rest, warnings) := gather d joined lines
        let warning := if joined.lastIsBlank then [⟨.emptyContinuation, line.position 0⟩] else []
        (rest, warning ++ warnings)
      else
        let (rest, warnings) := gather d (single .normal (line.firstSegment .normal)) lines
        (current :: rest, ⟨.orphanContinuation, line.position (-1)⟩ :: warnings)
    else
      let (rest, warnings) := gather d (single kind (line.firstSegment kind)) lines
      (current :: rest, unknown.toList ++ warnings)

/-- The logical lines of physical lines, and the warnings about them. -/
def ofPhysical (d : Dialect) : List PhysicalLine → List LogicalLine × List Diagnostic
  | [] => ([], [])
  | line :: lines =>
    let (kind, unknown) := line.classify d
    if kind == .continuation then
      let (rest, warnings) := gather d (single .normal (line.firstSegment .normal)) lines
      (rest, ⟨.orphanContinuation, line.position (-1)⟩ :: warnings)
    else
      let (rest, warnings) := gather d (single kind (line.firstSegment kind)) lines
      (rest, unknown.toList ++ warnings)

end LogicalLine

end CobolText
