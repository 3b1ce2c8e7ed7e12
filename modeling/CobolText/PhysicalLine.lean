import CobolText.Diagnostic
import CobolText.Dialect
import CobolText.Text.Lines
import CobolText.Text.Slice

/-!
# Physical lines

A source text is read line by line.  Each line is cut to the greatest width, with a warning if
anything but blanks is lost, and divided into its areas.
-/

namespace CobolText

/-- One line of a source file, divided into its areas. -/
structure PhysicalLine where
  file : String
  number : Nat
  raw : List Char
  format : SourceFormat
  sequence : List Char
  indicator : List Char
  content : List Char
  identification : List Char
  /-- The column of the first content character. -/
  column : Nat
deriving DecidableEq, Repr

namespace PhysicalLine

/-- The position of the content character at `offset`. -/
def position (l : PhysicalLine) (offset : Int) : Position :=
  ⟨l.file, l.number, l.column + offset⟩

/-- Divides a line into its areas. -/
def divide (d : Dialect) (format : SourceFormat) (file : String) (number : Nat) (raw : List Char) :
    PhysicalLine :=
  let layout := d.layout format
  let first := layout.indentWidth
  { file, number, raw, format
    sequence := raw.take layout.sequenceWidth
    indicator := (raw.take first).drop layout.sequenceWidth
    content := match layout.margin? with
      | some margin => Text.slice raw first margin
      | none => raw.drop first
    identification := match layout.margin? with
      | some margin => Text.sliceFrom raw margin
      | none => []
    column := layout.contentColumn }

/-- A line cut to the greatest width, and a warning if more than blanks was cut off. -/
def readLine (d : Dialect) (format : SourceFormat) (file : String) (number : Nat)
    (raw : List Char) : PhysicalLine × Option Diagnostic :=
  let width := d.lineWidth
  if width < raw.length then
    let dropped := Text.sliceFrom raw width
    let warning : Diagnostic :=
      ⟨.lineTooLong d.maxLineWidth dropped.length, ⟨file, number, width + 1⟩⟩
    (divide d format file number (Text.sliceTo raw width),
      if Text.isBlankText dropped then none else some warning)
  else (divide d format file number raw, none)

/-- All lines of a text, numbered from 1, and the warnings about them, under column options that
are in order. -/
def ofText (d : Dialect) (format : SourceFormat) (file : String) (text : List Char) :
    List PhysicalLine × List Diagnostic :=
  let results := (Text.physicalLines text).zipIdx.map fun (raw, i) =>
    readLine d format file (i + 1) raw
  (results.map (·.1), results.filterMap (·.2))

/-- All lines of a text, and the warnings about them.  Column options that are not in order come
to light at the first line. -/
def read (d : Dialect) (format : SourceFormat) (file : String) (text : List Char) :
    Except Fault (List PhysicalLine × List Diagnostic) :=
  match d.columnFault? format with
  | some fault => if (Text.physicalLines text).isEmpty then .ok ([], []) else .error fault
  | none => .ok (ofText d format file text)

end PhysicalLine

end CobolText
