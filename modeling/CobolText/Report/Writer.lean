import CobolText.Preprocess
import CobolText.Report.Datum
import CobolText.Report.Json

/-!
# Origin reports

The report on a preprocessed source: its origin map, the origin of every output line, and the
warnings.  A writer turns reports into JSON.
-/

namespace CobolText

/-- How reports are written. -/
structure ReportWriter where
  layout : JsonLayout
  /-- Whether the origins of output lines are shown. -/
  withLineMapping : Bool
deriving DecidableEq, Repr

namespace ReportWriter

/-- What one level is indented by: a number of spaces, or a text.  Without either, everything
stands on one line. -/
def indentOf : Value → Except Fault (Option String)
  | .null => .ok none
  | .text s => .ok (some s)
  | value =>
    match value.count? with
    | some n => .ok (some (String.ofList (Text.spaces n.toNat)))
    | none => .error (.badSetting .notUsable)

/-- A writer of readable reports, given the setting of the indent, or of reports on one line. -/
def make (pretty : Bool) (indent : Value) (sortKeys withLineMapping : Bool) :
    Except Fault ReportWriter := do
  let indent ← if pretty then indentOf indent else .ok none
  return ⟨⟨indent, sortKeys⟩, withLineMapping⟩

/-- The entries of a report that the writer shows. -/
def shown {α : Type} (w : ReportWriter) (entries : List (String × α)) : List (String × α) :=
  if w.withLineMapping then entries else entries.filter fun e => e.1 != "line_mapping"

/-- A report as JSON. -/
def write (w : ReportWriter) (entries : List (String × Value)) : String :=
  Json.render w.layout (.fields ((w.shown entries).map fun e => (.text e.1, e.2)))

/-- A report on any data as JSON, if all of it can be shown. -/
def write? (w : ReportWriter) (entries : List (String × Datum)) : Option String :=
  (Datum.toFields? (w.shown entries)).map fun fields => Json.render w.layout (.fields fields)

end ReportWriter

/-- A diagnostic as fields. -/
def Diagnostic.toValue (d : Diagnostic) : Value :=
  .fields [("severity", .text d.severity), ("code", .text d.problem.code),
    ("message", .text d.problem.message), ("file", .text d.position.file),
    ("line", .number d.position.line), ("column", .number d.position.column)]

/-- The origin of an output line as fields. -/
def LineOrigin.toValue (o : LineOrigin) : Value :=
  .fields [("expanded_line", .number o.outputLine), ("original_line", .number o.line),
    ("source_file", .text o.file), ("is_copybook", .flag o.fromCopybook)]

/-- The report on a preprocessed source, with the time it was made if that is given. -/
def Preprocessed.report (r : Preprocessed) (time : Option String) : List (String × Value) :=
  [("source", .text r.name)] ++
    (time.map fun t => ("generated_at", Value.text t)).toList ++
    [("output_lines", .number (r.output.text.count '\n')),
      ("ranges", .list (r.output.extents.map Extent.toValue)),
      ("line_mapping", .fields (r.output.lineOrigins.map fun o =>
        (toString o.outputLine, o.toValue))),
      ("diagnostics", .list (r.diagnostics.map Diagnostic.toValue))]

end CobolText
