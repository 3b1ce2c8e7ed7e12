import CobolText.CommandLine.Console
import CobolText.Files.Directory
import CobolText.Preprocess
import CobolText.Report.Writer

/-!
# Batches

The command that preprocesses a batch of sources.  All sources are preprocessed before the first
result is written.
-/

namespace CobolText.CommandLine

/-- The time of day and the time a run has taken, as they are shown. -/
structure Clock (m : Type → Type) where
  now : m String
  elapsed : m String

variable {m : Type → Type} [Monad m]

/-- Preprocesses sources one after the other in one session.  A fault that breaks off all work
stops this, unless the sources are worked on side by side.  `sideBySide` decides about that alone:
with it too, one source is done before the next is begun. -/
def processAll (files : FileAccess m) (sideBySide : Bool) :
    Session → List Path → m (List (Path × Outcome))
  | _, [] => return []
  | s, source :: sources => do
    let (outcome, s) ← s.processFile files source
    if (fatal? outcome).isSome && !sideBySide then return [(source, outcome)]
    return (source, outcome) :: (← processAll files sideBySide s sources)

/-- The results of a batch, each with its source. -/
def results (outcomes : List (Path × Outcome)) : List (Path × Preprocessed) :=
  outcomes.filterMap fun (source, o) =>
    match o.result with
    | .ok result => some (source, result)
    | .error _ => none

/-- The file in a directory that the text of a source is written to. -/
def textPath (dir source : Path) : Path :=
  dir.child (source.stem ++ ".pre.cbl")

/-- The file in a directory that the report on a source is written to. -/
def reportPath (dir source : Path) : Path :=
  dir.child (source.stem ++ ".map.json")

/-- Writes one file. -/
def writeFile (files : FileStore m) (path : Path) (text : List Char) : m (Except Fault Unit) := do
  match ← files.write path (Encoding.encodeUtf8 text) with
  | .ok _ => return .ok ()
  | .error failure => return .error (.unwritable path failure)

/-- Writes the result for one source, and the report on it if there is a writer for that.  The
paths written are returned. -/
def writeResult (files : FileStore m) (clock : Clock m) (writer : Option (Except Fault ReportWriter))
    (dir source : Path) (result : Preprocessed) : m (Except Fault (List Path)) := do
  let target := textPath dir source
  match ← writeFile files target result.output.text with
  | .error fault => return .error fault
  | .ok _ =>
    match writer with
    | none => return .ok [target]
    | some (.error fault) => return .error fault
    | some (.ok writer) =>
      let report := writer.write (result.report (some (← clock.now)))
      match ← writeFile files (reportPath dir source) report.toList with
      | .error fault => return .error fault
      | .ok _ => return .ok [target, reportPath dir source]

/-- Writes the results of a batch into a directory, up to the first failure, and tells which files
were written unless the run is quiet. -/
def writeAll (files : FileStore m) (clock : Clock m) (writer : Option (Except Fault ReportWriter))
    (quiet : Bool) (dir : Path) : List (Path × Preprocessed) → m (List Event × Option Fault)
  | [] => return ([], none)
  | (source, result) :: rest => do
    match ← writeResult files clock writer dir source result with
    | .error fault => return ([], some fault)
    | .ok paths =>
      let told := if quiet then [] else
        paths.map fun p => Event.printed ("Written: " ++ p.render ++ "\n")
      let (events, failure) ← writeAll files clock writer quiet dir rest
      return (told ++ events, failure)

/-- Puts out the results of a batch: as files if there is a directory for them, or on the
console. -/
def deliverAll (files : FileStore m) (clock : Clock m) (r : BatchRequest)
    (writer : Option (Except Fault ReportWriter)) (done : List (Path × Preprocessed)) :
    m (List Event × Option Fault) :=
  match r.outputDir with
  | some dir => writeAll files clock writer r.general.quiet dir done
  | none => return (done.map fun d => .printed (String.ofList d.2.output.text), none)

/-- The message that sums up a batch. -/
def summary (done total : Nat) (elapsed : String) : Event :=
  .logged .info ("Preprocessed " ++ toString done ++ " of " ++ toString total ++ " files in " ++
    elapsed ++ " seconds")

/-- Preprocesses a batch in a session, up to `jobs` sources at a time. -/
def runBatch (files : FileStore m) (clock : Clock m) (r : BatchRequest) (jobs : Int)
    (session : Session) (writer : Option (Except Fault ReportWriter)) : m Transcript := do
  let sideBySide := 1 < jobs && 1 < r.sources.length
  let outcomes ← processAll files.toFileAccess sideBySide session r.sources
  let events := outcomes.flatMap fun (source, o) => outcomeEvents source o
  match outcomes.findSome? fun (_, o) => fatal? o with
  | some fault => return (Transcript.abort fault).after events
  | none =>
    let done := results outcomes
    let (shown, failure) ← deliverAll files clock r writer done
    match failure with
    | some fault => return (Transcript.abort fault).after (events ++ shown)
    | none =>
      let last := summary done.length outcomes.length (← clock.elapsed)
      return Transcript.exit (events ++ shown ++ [last])
        (if done.length == outcomes.length then 0 else 1)

/-- The writer that a request for reports needs. -/
def requestedWriter (c : Config) (r : BatchRequest) :
    Except Fault (Option (Except Fault ReportWriter)) := do
  if !r.withReports then return none
  let pretty ← c.setting "output" "pretty_print" (.flag true)
  let indent ← c.setting "output" "indent_size" (.number 2)
  return some (ReportWriter.make pretty.isSet indent false true)

/-- How many sources a request lets be worked on at a time, which must not be left out. -/
def BatchRequest.requestedJobs (r : BatchRequest) : Except Fault Int :=
  match r.jobs with
  | some jobs => .ok jobs
  | none => .error (.badSetting .notUsable)

/-- Reads the configuration of a batch and preprocesses it. -/
def runConfigured (files : FileStore m) (clock : Clock m) (r : BatchRequest) : m Transcript := do
  match ← Config.load files.toFileAccess r.general.config with
  | .error fault => return Transcript.abort fault
  | .ok config =>
    match config.options r.general.choices with
    | .error fault =>
      return if fault.isConfiguration then
        Transcript.refuse ("Invalid configuration: " ++ fault.message)
        else Transcript.abort fault
    | .ok options =>
      match (do return (← requestedWriter config r, ← Session.start options, ← r.requestedJobs)) with
      | .error fault => return Transcript.abort fault
      | .ok (writer, session, jobs) => runBatch files clock r jobs session writer

/-- The first of some paths that is no file. -/
def firstMissing? (files : FileAccess m) : List Path → m (Option Path)
  | [] => return none
  | path :: paths => do
    if ← files.isFile path then firstMissing? files paths else return some path

/-- Answers a request to preprocess a batch. -/
def BatchRequest.run (files : FileStore m) (clock : Clock m) (r : BatchRequest) :
    m Transcript := do
  match ← firstMissing? files.toFileAccess r.sources with
  | some source => return Transcript.refuse (sourceMissing source)
  | none =>
    match r.outputDir with
    | some dir =>
      match ← files.makeDirectories dir with
      | .error (failure, path) =>
        return Transcript.refuse ("Failed to create output directory: " ++ failure.message ++
          ": " ++ Value.quoted path.render)
      | .ok _ =>
        let made := Event.logged .info ("Output directory: " ++ dir.render)
        return (← runConfigured files clock r).after [made]
    | none =>
      if r.withReports then return Transcript.refuse "--source-map requires --output-dir"
      runConfigured files clock r

end CobolText.CommandLine
