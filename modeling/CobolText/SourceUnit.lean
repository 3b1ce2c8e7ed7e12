import CobolText.LogicalLine.CommentEntry
import CobolText.LogicalLine.Continuation
import CobolText.LogicalLine.Marking
import CobolText.LogicalLine.Written

/-!
# Source units

A source unit is the text of a main source or a copybook, read line by line: physical lines are
joined to logical lines, comment entries are flagged, comments are marked, and the lines are
written out as one text for the directives in it to be expanded.
-/

namespace CobolText

/-- How the lines of a unit are read. -/
structure LineRules where
  format : SourceFormat
  dialect : Dialect
  /-- Whether debugging lines are kept as code. -/
  debugging : Bool
deriving DecidableEq, Repr

/-- A unit after its lines are read. -/
structure SourceUnit where
  name : String
  lines : List LogicalLine
  blocks : List CommentBlock
  diagnostics : List Diagnostic
  written : TracedText

/-- The unit of some physical lines, given the warnings about them. -/
def SourceUnit.ofLines (r : LineRules) (name : String) (physical : List PhysicalLine)
    (tooLong : List Diagnostic) : SourceUnit :=
  let (logical, warnings) := LogicalLine.ofPhysical r.dialect physical
  let (lines, blocks) := LogicalLine.markAll r.debugging (LogicalLine.flagEntries r.dialect logical)
  { name, lines, blocks
    diagnostics := tooLong ++ warnings
    written := LogicalLine.write r.dialect r.format lines }

/-- Reads the lines of a unit. -/
def SourceUnit.read (r : LineRules) (name : String) (text : List Char) :
    Except Fault SourceUnit := do
  let (physical, tooLong) ← PhysicalLine.read r.dialect r.format name text
  return ofLines r name physical tooLong

end CobolText
