import CobolText.Files.Access
import CobolText.Origin.Extent
import CobolText.Value
import CobolText.Yaml.Defect

/-!
# Faults

Everything that can end a run without a result, and how it is reported.
-/

namespace CobolText

/-- What is wrong with a directive. -/
inductive Defect where
  | missingPeriod
  | missingBookName
  | missingLibraryName (keyword : String)
  | unexpected (found : List Char)
  | notReplacingOperand (found : List Char)
  | notReplacementOperand (found : List Char)
  | missingBy (pattern found : List Char)
  | missingReplacement (pattern : List Char)
  | noOperands
  | emptyPattern
  | missingOff (found : List Char)
  | missingEndExec
deriving DecidableEq, Repr

/-- The wording of a defect. -/
def Defect.message : Defect → String
  | .missingPeriod => "missing terminating period"
  | .missingBookName => "missing copybook name"
  | .missingLibraryName keyword => "missing library name after " ++ keyword
  | .unexpected found => "unexpected '" ++ String.ofList found ++ "'"
  | .notReplacingOperand found => "expected replacing operand, found '" ++ String.ofList found ++ "'"
  | .notReplacementOperand found =>
    "expected replacement operand, found '" ++ String.ofList found ++ "'"
  | .missingBy pattern found =>
    "expected BY after '" ++ String.ofList pattern ++ "', found '" ++ String.ofList found ++ "'"
  | .missingReplacement pattern => "missing replacement for '" ++ String.ofList pattern ++ "'"
  | .noOperands => "no replacing operands"
  | .emptyPattern => "empty replacement pattern (pattern holds no text words)"
  | .missingOff found => "expected OFF after LAST, found '" ++ String.ofList found ++ "'"
  | .missingEndExec => "missing END-EXEC"

/-- What is wrong with the kind of a configuration value. -/
inductive SettingDefect where
  /-- Fields are needed. -/
  | notFields
  /-- Text is needed. -/
  | notText
  /-- Something made of items is needed. -/
  | notItems
  /-- A value that stands for a number is needed. -/
  | notNumeric
  /-- A text does not spell a number. -/
  | notNumeral
  /-- A value cannot be used as this option. -/
  | notUsable
  /-- The name of a log level is needed. -/
  | notLevel
  /-- The name of a log level is needed, and this is the name of the message format. -/
  | formatName
  /-- The configuration file is a directory. -/
  | directory
  /-- The configuration file holds no text. -/
  | undecodable
  /-- The configuration file is no document. -/
  | notDocument (defect : Yaml.Defect)
deriving DecidableEq, Repr

/-- Why a run ends without a result. -/
inductive Fault where
  | unknownFormat (name : String)
  | unknownDialect (name : String)
  | unknownDialectOption (key : String)
  | depthBelowOne (depth : Value)
  | unreadable (path : Path) (failure : ReadFailure)
  | undecodable (path : Path) (encoding : String) (offset : Nat)
  | malformed (directive : String) (defect : Defect) (position : Option Position)
  | bookNotFound (name : String) (library : Option String) (searched : List Path)
      (position : Option Position)
  | circularCopy (chain : List String) (position : Option Position)
  | tooDeep (limit : Value) (chain : List String) (position : Option Position)
  | unknownEncoding (name : String)
  | noFileName (path : Path)
  | badSetting (defect : SettingDefect)
  | unwritable (path : Path) (failure : ReadFailure)
deriving DecidableEq, Repr

/-- A copybook name with its library, if it has one. -/
def qualifiedName (name : String) (library : Option String) : String :=
  match library with
  | some lib => if lib == "" then name else name ++ " OF " ++ lib
  | none => name

namespace Fault

/-- Where in the sources a fault was found. -/
def position? : Fault → Option Position
  | .malformed _ _ position => position
  | .bookNotFound _ _ _ position => position
  | .circularCopy _ position => position
  | .tooDeep _ _ position => position
  | _ => none

/-- The wording of a fault without its position. -/
def reason : Fault → String
  | .unknownFormat name =>
    "Unknown source format '" ++ name ++ "' (expected one of: fixed, variable, tandem, free)"
  | .unknownDialect name =>
    "Unknown dialect '" ++ name ++ "' (expected one of: ANSI85, MF, OSVS)"
  | .unknownDialectOption key => "Unknown dialect option '" ++ key ++ "'"
  | .depthBelowOne depth => "max_copy_depth must be at least 1, got " ++ depth.render
  | .unreadable path failure => "Cannot read '" ++ path.render ++ "': " ++ failure.message
  | .undecodable path encoding offset =>
    "Cannot read '" ++ path.render ++ "': invalid " ++ encoding ++ " data at byte " ++
      toString offset
  | .malformed directive defect _ =>
    "Malformed " ++ directive ++ " directive: " ++ defect.message
  | .bookNotFound name library searched _ =>
    let paths := if searched.isEmpty then "<no search paths>"
      else ", ".intercalate (searched.map Path.render)
    "Copybook '" ++ qualifiedName name library ++ "' not found. Searched: " ++ paths
  | .circularCopy chain _ => "Circular COPY dependency detected: " ++ " -> ".intercalate chain
  | .tooDeep limit chain _ =>
    "Maximum COPY nesting depth (" ++ limit.render ++ ") exceeded: " ++
      " -> ".intercalate chain
  | .unknownEncoding name => "unknown encoding: " ++ name
  | .noFileName path => "'" ++ path.render ++ "' has no file name"
  | .badSetting _ => "unusable configuration value"
  | .unwritable path failure => "Cannot write '" ++ path.render ++ "': " ++ failure.message

/-- The report on a fault, led by its position if it has one. -/
def message (f : Fault) : String :=
  match f.position? with
  | some p => p.render ++ ": " ++ f.reason
  | none => f.reason

/-- Whether a fault is a finding about the sources or the options, to be reported and passed
over.  Any other fault ends the whole command. -/
def isReported : Fault → Bool
  | .unknownEncoding _ => false
  | .noFileName _ => false
  | .badSetting _ => false
  | .unwritable _ _ => false
  | _ => true

/-- Whether a fault lies in the format, the dialect or an option value. -/
def isConfiguration : Fault → Bool
  | .unknownFormat _ | .unknownDialect _ | .unknownDialectOption _ | .depthBelowOne _ => true
  | _ => false

end Fault

end CobolText
