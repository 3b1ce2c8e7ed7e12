import CobolText.Yaml.Character
import CobolText.Yaml.Defect

/-!
# Block scalars

Text on lines of its own, deeper than the line that announces it.  Its line breaks are kept, or
folded like those of plain text.
-/

namespace CobolText.Yaml

/-- What becomes of the line breaks at the end of a block scalar. -/
inductive Chomping where
  /-- All are dropped. -/
  | strip
  /-- The first is kept. -/
  | clip
  /-- All are kept. -/
  | keep
deriving DecidableEq, Repr

/-- How a block scalar is announced. -/
structure BlockHeader where
  chomping : Chomping
  /-- How much deeper it is than the text around it, if that is told. -/
  increment : Option Nat
deriving DecidableEq, Repr

namespace BlockHeader

/-- The way of chomping at the start of a text. -/
def chomping? : List Char → Option (Chomping × List Char)
  | '+' :: rest => some (.keep, rest)
  | '-' :: rest => some (.strip, rest)
  | _ => none

/-- The increment at the start of a text; it is a digit, but not zero. -/
def increment? : List Char → Except Defect (Option Nat × List Char)
  | [] => .ok (none, [])
  | c :: rest =>
    if c == '0' then .error .lexical
    else if c.isDigit then .ok (some (c.toNat - 0x30), rest)
    else .ok (none, c :: rest)

/-- Reads the rest of the line that announces a block scalar. -/
def read (s : List Char) : Except Defect (BlockHeader × List Char) := do
  let (header, rest) ← match chomping? s with
    | some (chomping, rest) => do
      let (increment, rest) ← increment? rest
      pure (BlockHeader.mk chomping increment, rest)
    | none => do
      let (increment, rest) ← increment? s
      match increment, chomping? rest with
      | some n, some (chomping, rest) => pure ⟨⟨chomping, some n⟩, rest⟩
      | _, _ => pure ⟨⟨.clip, increment⟩, rest⟩
  if !atSpace rest then throw .lexical
  match ignoredLine? rest with
  | some body => return (header, body)
  | none => throw .lexical

end BlockHeader

/-- A line and the character that ends it; the last line of a document has none. -/
structure DocumentLine where
  content : List Char
  ending : Option Char
deriving DecidableEq, Repr

namespace DocumentLine

/-- The lines of a text; nothing follows the last line break. -/
def split : List Char → List DocumentLine
  | [] => []
  | c :: rest =>
    if isBreak c then ⟨[], some c⟩ :: split rest
    else
      match split rest with
      | [] => [⟨[c], none⟩]
      | line :: lines => { line with content := c :: line.content } :: lines

/-- The text of some lines. -/
def join (lines : List DocumentLine) : List Char :=
  lines.flatMap fun l => l.content ++ l.ending.toList

/-- How many spaces a line starts with. -/
def indent (l : DocumentLine) : Nat :=
  (l.content.takeWhile (· == ' ')).length

/-- Whether a line has nothing but spaces before it ends. -/
def isBlank (l : DocumentLine) : Bool :=
  l.ending.isSome && l.indent == l.content.length

/-- The line break that a scalar holds for the end of a line. -/
def kept (l : DocumentLine) : List Char :=
  (l.ending.map keptBreak).toList

/-- Whether a line has text at a depth. -/
def reaches (depth : Nat) (l : DocumentLine) : Bool :=
  depth ≤ l.indent && depth < l.content.length

/-- Whether the text of a line at a depth starts with white space. -/
def startsWithGap (depth : Nat) (l : DocumentLine) : Bool :=
  ((l.content.drop depth).take 1).any isGap

/-- The lines in front that have no text at a depth, as line breaks, and the lines after them. -/
def leadingBreaks (depth : Nat) : List DocumentLine → List Char × List DocumentLine
  | [] => ([], [])
  | line :: lines =>
    if line.isBlank && line.content.length ≤ depth then
      let (breaks, rest) := leadingBreaks depth lines
      (line.kept ++ breaks, rest)
    else ([], line :: lines)

/-- The depth of a block scalar by its lines: that of the first one with text, or of a deeper
blank line in front of it. -/
def deepest : List DocumentLine → Nat
  | [] => 0
  | line :: lines => if line.isBlank then max line.indent (deepest lines) else line.indent

end DocumentLine

/-- What ends a block scalar: the last line break, and the blank lines after it. -/
def BlockHeader.ending (h : BlockHeader) (last breaks : List Char) : List Char :=
  match h.chomping with
  | .strip => []
  | .clip => last
  | .keep => last ++ breaks

/-- What stands between two lines of a block scalar: the break of the first, unless it is folded.
It is folded if neither line starts with white space, to a space if no blank line lies between
them. -/
def lineJoint (folded : Bool) (depth : Nat) (line next : DocumentLine) (breaks : List Char) :
    List Char :=
  if folded && line.kept == ['\n'] && !line.startsWithGap depth && !next.startsWithGap depth then
    if breaks.isEmpty then [' '] else []
  else line.kept

/-- The text of a block scalar from a line of it on, given the lines after that and the blank
lines passed since, and the lines that do not belong to it. -/
def blockLines (h : BlockHeader) (folded : Bool) (depth : Nat) (line : DocumentLine) :
    List DocumentLine → List Char → List Char × List DocumentLine
  | [], breaks => (line.content.drop depth ++ h.ending line.kept breaks, [])
  | next :: lines, breaks =>
    if next.isBlank && next.content.length ≤ depth then
      blockLines h folded depth line lines (breaks ++ next.kept)
    else if next.reaches depth then
      let (text, rest) := blockLines h folded depth next lines []
      (line.content.drop depth ++ lineJoint folded depth line next breaks ++ breaks ++ text, rest)
    else (line.content.drop depth ++ h.ending line.kept breaks, next :: lines)

/-- Reads a block scalar after the mark that announces it, given the depth of the text around it:
the text, and what follows it. -/
def blockText (folded : Bool) (outer : Int) (s : List Char) :
    Except Defect (List Char × List Char) := do
  let (header, body) ← BlockHeader.read s
  let lines := DocumentLine.split body
  let least := (max 1 (outer + 1)).toNat
  let depth := match header.increment with
    | some n => least + n - 1
    | none => max least (DocumentLine.deepest lines)
  let (breaks, rest) := DocumentLine.leadingBreaks depth lines
  let (text, rest) := match rest with
    | line :: more =>
      if line.reaches depth then
        let (text, rest) := blockLines header folded depth line more []
        (breaks ++ text, rest)
      else (header.ending [] breaks, line :: more)
    | [] => (header.ending [] breaks, [])
  return (text, DocumentLine.join rest)

end CobolText.Yaml
