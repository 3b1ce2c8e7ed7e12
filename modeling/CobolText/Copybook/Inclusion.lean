import CobolText.Fault
import CobolText.Text.Case

/-!
# Inclusions

The source units that are being expanded form a stack, the main source at its bottom.  A unit
must not include itself, neither under the same name nor from the same file.
-/

namespace CobolText

/-- A source unit that is being expanded. -/
structure Inclusion where
  name : String
  library : Option String
  path : Option Path
deriving DecidableEq, Repr

namespace Inclusion

/-- The name and library in capitals. -/
def key (i : Inclusion) : String × String :=
  (Text.upperString i.name, Text.upperString (i.library.getD ""))

/-- The name of the unit in reports. -/
def label (i : Inclusion) : String :=
  qualifiedName i.name i.library

/-- Whether both are from files that exist under one absolute path. -/
def sameFile (workDir : Path) (i j : Inclusion) : Bool :=
  match i.path, j.path with
  | some p, some q => Path.resolve workDir p == Path.resolve workDir q
  | _, _ => false

/-- Whether two units count as the same. -/
def sameUnit (workDir : Path) (i j : Inclusion) : Bool :=
  i.key == j.key || sameFile workDir i j

end Inclusion

end CobolText
