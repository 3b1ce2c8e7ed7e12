import CobolText.Expansion

/-!
# Options

The options of a run, checked once when they are put together.
-/

namespace CobolText

/-- What may be chosen for a run.  What is only needed later is kept as it was chosen. -/
structure Options where
  format : SourceFormat
  dialect : Dialect
  copybookPaths : List Path
  /-- The extensions tried for copybook names, if others than the standard ones. -/
  extensions : Value
  encoding : Value
  /-- Whether debugging lines are kept as code. -/
  debugging : Value
  /-- How deeply copybooks may be nested. -/
  maxCopyDepth : Value
deriving DecidableEq, Repr

namespace Options

/-- How deeply copybooks may be nested unless something else is chosen. -/
def standardDepth : Nat :=
  16

/-- The options if nothing is chosen. -/
def standard : Options where
  format := .fixed
  dialect := .ansi85
  copybookPaths := [Path.here]
  extensions := .null
  encoding := .text "utf-8"
  debugging := .flag false
  maxCopyDepth := .number standardDepth

/-- The options with another depth of nesting, which must be a number and at least one. -/
def withDepth (o : Options) (depth : Value) : Except Fault Options :=
  match depth.count? with
  | some n => if n < 1 then .error (.depthBelowOne depth) else .ok { o with maxCopyDepth := depth }
  | none => .error (.badSetting .notUsable)

/-- The way copybooks are looked for under the options. -/
def searchPlan (o : Options) : Except Fault SearchPlan :=
  SearchPlan.make o.copybookPaths o.extensions o.dialect.caseSensitiveCopybooks.isSet

/-- How lines are read under the options. -/
def lineRules (o : Options) : LineRules :=
  ⟨o.format, o.dialect, o.debugging.isSet⟩

/-- What a run under the options works with. -/
def runRules (o : Options) (plan : SearchPlan) : RunRules :=
  { o.lineRules with plan, encoding := o.encoding, depth := o.maxCopyDepth }

end Options

end CobolText
