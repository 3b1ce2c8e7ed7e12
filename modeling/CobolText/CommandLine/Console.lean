import CobolText.CommandLine.Request
import CobolText.Preprocess

/-!
# Console

What a command shows: text that it prints, and messages that it logs.  A message is shown if its
level reaches the threshold.
-/

namespace CobolText.CommandLine

/-- The levels of messages. -/
inductive LogLevel where
  | any
  | debug
  | info
  | warning
  | error
  | critical
deriving DecidableEq, Repr

namespace LogLevel

/-- Levels in order of weight. -/
def weight : LogLevel → Nat
  | .any => 0
  | .debug => 1
  | .info => 2
  | .warning => 3
  | .error => 4
  | .critical => 5

/-- The name of a level. -/
def name : LogLevel → String
  | .any => "NOTSET"
  | .debug => "DEBUG"
  | .info => "INFO"
  | .warning => "WARNING"
  | .error => "ERROR"
  | .critical => "CRITICAL"

/-- The level of a given name; case does not matter. -/
def ofName? (given : String) : Option LogLevel :=
  match Text.upperString given with
  | "NOTSET" => some .any
  | "DEBUG" => some .debug
  | "INFO" => some .info
  | "WARNING" | "WARN" => some .warning
  | "ERROR" => some .error
  | "CRITICAL" | "FATAL" => some .critical
  | _ => none

/-- The name of the format of messages, which is no level. -/
def formatName : String :=
  "BASIC_FORMAT"

/-- The threshold for a run: errors only if it shall be quiet, everything if it shall be verbose,
and what the configuration says otherwise. -/
def threshold (c : Config) (g : General) : Except Fault LogLevel := do
  let level ← c.setting "logging" "level" (.text "INFO")
  if g.quiet then return .error
  else if g.verbose then return .debug
  else
    let name ← Config.textOf level
    match ofName? name with
    | some level => return level
    | none =>
      .error (.badSetting (if Text.upperString name == formatName then .formatName else .notLevel))

end LogLevel

/-- Something shown on the console. -/
inductive Event where
  | printed (text : String)
  | logged (level : LogLevel) (message : String)
deriving DecidableEq, Repr

/-- Whether an event is shown under a threshold. -/
def Event.passes (threshold : LogLevel) : Event → Bool
  | .printed _ => true
  | .logged level _ => threshold.weight ≤ level.weight

/-- The text printed by some events. -/
def printedText (events : List Event) : String :=
  String.join (events.map fun
    | .printed text => text
    | .logged _ _ => "")

/-- The messages logged by some events. -/
def loggedMessages (events : List Event) : List (LogLevel × String) :=
  events.filterMap fun
    | .printed _ => none
    | .logged level message => some (level, message)

/-- What a run shows and how it ends: with an exit code, or by a fault. -/
structure Transcript where
  events : List Event
  ending : Except Fault Nat

namespace Transcript

/-- A run that shows something and ends. -/
def exit (events : List Event) (code : Nat) : Transcript :=
  ⟨events, .ok code⟩

/-- A run that ends with an error message. -/
def refuse (message : String) : Transcript :=
  ⟨[.logged .error message], .ok 1⟩

/-- A run that is broken off. -/
def abort (fault : Fault) : Transcript :=
  ⟨[], .error fault⟩

/-- A run that shows something first. -/
def after (events : List Event) (t : Transcript) : Transcript :=
  ⟨events ++ t.events, t.ending⟩

/-- The run without the messages below a threshold. -/
def above (threshold : LogLevel) (t : Transcript) : Transcript :=
  ⟨t.events.filter (Event.passes threshold), t.ending⟩

end Transcript

/-- The messages about a run on one source: its warnings, and why it failed if that is to be
reported. -/
def outcomeEvents (source : Path) (o : Outcome) : List Event :=
  let warnings := o.warnings.map fun d => Event.logged .warning d.render
  match o.result with
  | .ok _ => warnings
  | .error fault =>
    if fault.isReported then
      warnings ++ [.logged .error
        ("Preprocessing failed for " ++ source.render ++ ": " ++ fault.message)]
    else warnings

/-- The fault that breaks off all work, if a run on a source ended with one. -/
def fatal? (o : Outcome) : Option Fault :=
  match o.result with
  | .ok _ => none
  | .error fault => if fault.isReported then none else some fault

/-- The complaint about a source that is no file. -/
def sourceMissing (source : Path) : String :=
  "Source file not found: " ++ source.render

end CobolText.CommandLine
