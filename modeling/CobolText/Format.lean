import CobolText.Fault
import CobolText.Text.Blank
import CobolText.Text.Case
import CobolText.Value

/-!
# Source formats

How the columns of a physical line are divided.
-/

namespace CobolText

/-- The layouts a source line may have. -/
inductive SourceFormat where
  /-- Sequence number, indicator, content up to a right margin, identification. -/
  | fixed
  /-- Like `fixed`, but the content runs to the end of the line. -/
  | variableLength
  /-- Indicator and content. -/
  | tandem
  /-- Content alone. -/
  | free
deriving DecidableEq, Repr

namespace SourceFormat

/-- The name of a format. -/
def name : SourceFormat → String
  | .fixed => "fixed"
  | .variableLength => "variable"
  | .tandem => "tandem"
  | .free => "free"

/-- All formats. -/
def all : List SourceFormat :=
  [.fixed, .variableLength, .tandem, .free]

/-- The format of a given name; case and blanks around it do not matter. -/
def ofName (given : String) : Except Fault SourceFormat :=
  let wanted := Text.lowerString (Text.trimString given)
  match all.find? fun f => f.name == wanted with
  | some f => .ok f
  | none => .error (.unknownFormat given)

end SourceFormat

/-- The widths of the areas of a line. -/
structure ColumnLayout where
  sequenceWidth : Nat
  indicatorWidth : Nat
  /-- The last column of the content, as it is set; without one the content runs to the end of
  the line. -/
  rightMargin : Value
deriving DecidableEq, Repr

namespace ColumnLayout

/-- The last column of the content, if there is one. -/
def margin? (l : ColumnLayout) : Option Int :=
  l.rightMargin.count?

/-- How many columns stand in front of the content. -/
def indentWidth (l : ColumnLayout) : Nat :=
  l.sequenceWidth + l.indicatorWidth

/-- The first column of the content. -/
def contentColumn (l : ColumnLayout) : Nat :=
  l.indentWidth + 1

end ColumnLayout

end CobolText
