import CobolText.CommandLine.Console
import CobolText.Preprocess

/-!
# Locating origins

The command that says where a place in the output of a source comes from.
-/

namespace CobolText.CommandLine

/-- What is shown for a place in the output, whose line must not be left out. -/
def placeTranscript (r : Preprocessed) (line : Option Int) (column : Int) : Transcript :=
  match line with
  | none => Transcript.abort (.badSetting .notUsable)
  | some line =>
    match r.output.positionOf line column with
    | .error noLine => Transcript.refuse noLine.message
    | .ok none => Transcript.exit
        [.printed (toString line ++ ":" ++ toString column ++
          ": no original position (generated text)\n")] 1
    | .ok (some p) => Transcript.exit [.printed (p.render ++ "\n")] 0

/-- Answers a request for an origin. -/
def LocateRequest.run {m : Type → Type} [Monad m] (files : FileStore m) (r : LocateRequest) :
    m Transcript := do
  if !(← files.isFile r.source) then return Transcript.refuse (sourceMissing r.source)
  match ← Config.load files.toFileAccess r.general.config with
  | .error fault => return Transcript.abort fault
  | .ok config =>
    let outcome ← match config.options r.general.choices >>= Session.start with
      | .error fault => pure ⟨.error fault, []⟩
      | .ok session => Prod.fst <$> session.processFile files.toFileAccess r.source
    let events := outcomeEvents r.source outcome
    match outcome.result with
    | .ok result => return (placeTranscript result r.line r.column).after events
    | .error fault =>
      return if fault.isReported then Transcript.exit events 1
        else (Transcript.abort fault).after events

end CobolText.CommandLine
