import CobolText.Origin.Extent
import CobolText.Value

/-!
# Diagnostics

Problems in a source line that do not stop a run: the line is taken as well as it can be, and a
warning is given.
-/

namespace CobolText

/-- What is odd about a line. -/
inductive Problem where
  | lineTooLong (width : Value) (dropped : Nat)
  | unknownIndicator (indicator : List Char)
  | orphanContinuation
  | emptyContinuation
deriving DecidableEq, Repr

/-- The short name of a problem. -/
def Problem.code : Problem → String
  | .lineTooLong _ _ => "line-too-long"
  | .unknownIndicator _ => "unknown-indicator"
  | .orphanContinuation => "orphan-continuation"
  | .emptyContinuation => "empty-continuation"

/-- The wording of a problem. -/
def Problem.message : Problem → String
  | .lineTooLong width dropped =>
    "Line exceeds " ++ width.render ++ " columns; " ++ toString dropped ++ " characters dropped"
  | .unknownIndicator indicator =>
    "Unknown indicator '" ++ String.ofList indicator ++ "' treated as a normal line"
  | .orphanContinuation =>
    "Continuation line without a preceding line to continue; treated as a normal line"
  | .emptyContinuation => "Continuation line has no content"

/-- A problem and where it was found. -/
structure Diagnostic where
  problem : Problem
  position : Position
deriving DecidableEq, Repr

/-- Every problem is a warning. -/
def Diagnostic.severity (_ : Diagnostic) : String :=
  "warning"

/-- A diagnostic as one line. -/
def Diagnostic.render (d : Diagnostic) : String :=
  d.position.render ++ ": " ++ d.severity ++ ": " ++ d.problem.message

end CobolText
